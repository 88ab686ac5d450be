import Mathlib.Algebra.Order.BigOperators.Group.List
import Mathlib.Algebra.Order.Group.Nat
import Mathlib.Data.Finset.Card
import Nox.Classify.Rebuild

/-!
# Building, node by node

`build` gives every node a new version of itself (`build_rebuilds`), and the fuel
it is called with is enough (`build_isSome`): every split uses up a field of the
path.
-/

namespace Nox.Classify

open Cnode

variable {V : View} {isCopy : Bool}

section Combine

/-! ## Putting versions together -/

theorem Rebuilds.trans {l₁ l₂ l₃ : List Cnode} {m₁ m₂ m₃ : Memory}
    (h₁ : Rebuilds V isCopy l₁ m₁ l₂ m₂) (h₂ : Rebuilds V isCopy l₂ m₂ l₃ m₃) :
    Rebuilds V isCopy l₁ m₁ l₃ m₃ where
  next := Nat.le_trans h₁.next h₂.next
  rules := h₂.rules.trans h₁.rules
  addrs := by
    intro a ha
    have hle₁ := h₁.next
    have hle₂ := h₂.next
    rcases h₂.addrs a ha with h | h
    · rcases h₁.addrs a h with h | h
      · exact .inl h
      · exact .inr (by omega)
    · exact .inr (by omega)
  nodup := by
    intro hnodup hlt
    refine h₂.nodup (h₁.nodup hnodup hlt) fun a ha => ?_
    rcases h₁.addrs a ha with h | h
    · exact Nat.lt_of_lt_of_le (hlt a h) h₁.next
    · exact h.2
  placed := by
    have hcomp : ∀ {l₁ l₂ l₃ : List Cnode}
        (_ : List.Forall₂ (fun c c' => c'.value = c.value ∧
          ∀ p, Placed V p c → Placed V p c') l₁ l₂)
        (_ : List.Forall₂ (fun c c' => c'.value = c.value ∧
          ∀ p, Placed V p c → Placed V p c') l₂ l₃),
        List.Forall₂ (fun c c' => c'.value = c.value ∧
          ∀ p, Placed V p c → Placed V p c') l₁ l₃ := by
      intro l₁ l₂ l₃ h₁₂ h₂₃
      induction h₁₂ generalizing l₃ with
      | nil => cases h₂₃; exact .nil
      | cons hc _ ih =>
        cases h₂₃ with
        | cons hd htail =>
          exact .cons ⟨hd.1.trans hc.1, fun p hp => hd.2 p (hc.2 p hp)⟩ (ih htail)
    exact hcomp h₁.placed h₂.placed
  ordered := fun h => h₂.ordered (h₁.ordered h)
  frame := by
    intro r hr
    rw [h₂.frame r (hr.imp_right fun hr hr' => hr (h₁.rules.mem_iff.mp hr')), h₁.frame r hr]
  pointers := by
    intro hcopy hnodup hptr
    exact h₂.pointers hcopy (h₁.rules.nodup_iff.mpr hnodup) (h₁.pointers hcopy hnodup hptr)

/-- A copy becomes part of the tree. -/
theorem Rebuilds.publish {c c' : Cnode} {m m' : Memory} (h : Rebuilds V true [c] m [c'] m') :
    Rebuilds V false [c] m [c'] (m'.setNodePointers c') where
  next := by
    rw [setNodePointers_next]
    exact h.next
  rules := h.rules
  addrs := by
    rw [setNodePointers_next]
    exact h.addrs
  nodup := h.nodup
  placed := h.placed
  ordered := h.ordered
  frame := by
    intro r hr
    rcases hr with hr | hr
    · cases hr
    · rcases setNodePointers_node m' c' r with ⟨a, ha, -⟩ | ⟨-, hnode⟩
      · exact absurd (h.rules.mem_iff.mp (mem_allRules.mpr ⟨a, by simpa using ha⟩)) hr
      · rw [hnode, h.frame r (.inl rfl)]
  pointers := by
    intro _ hnodup _ e he
    have hnodup' := h.rules.nodup_iff.mpr hnodup
    simp only [List.flatMap_singleton] at hnodup' he
    exact setNodePointers_mem hnodup' e he

/-- A loop over lists of nodes. -/
theorem replaceAll_rebuilds {α : Type} (nodesOf : α → List Cnode)
    {build : α → Memory → Option (α × Memory)}
    (hbuild : ∀ x m x' m', (∀ c ∈ nodesOf x, ∀ a ∈ c.addrs, a < m.next) →
      build x m = some (x', m') → Rebuilds V isCopy (nodesOf x) m (nodesOf x') m')
    {xs xs' : List α} {m m' : Memory} (hlt : ∀ x ∈ xs, ∀ c ∈ nodesOf x, ∀ a ∈ c.addrs, a < m.next)
    (h : replaceAll build xs m = some (xs', m')) :
    Rebuilds V isCopy (xs.flatMap nodesOf) m (xs'.flatMap nodesOf) m' ∧
      xs'.map (fun x => (nodesOf x).map value) = xs.map fun x => (nodesOf x).map value := by
  induction xs generalizing m xs' with
  | nil =>
    cases h
    exact ⟨Rebuilds.refl _ _, rfl⟩
  | cons x xs ih =>
    rw [replaceAll] at h
    split at h
    · cases h
    · next x' m₁ hx =>
      obtain ⟨⟨xs'', m₂⟩, hxs, heq⟩ := Option.map_eq_some_iff.mp h
      cases heq
      have h₁ := hbuild x m x' m₁ (hlt x List.mem_cons_self) hx
      obtain ⟨h₂, hvalues⟩ := ih (fun y hy c hc a ha =>
        Nat.lt_of_lt_of_le (hlt y (List.mem_cons_of_mem _ hy) c hc a ha) h₁.next) hxs
      refine ⟨h₁.append h₂, ?_⟩
      rw [List.map_cons, List.map_cons, hvalues]
      congr 1
      have hplaced := h₁.placed
      generalize nodesOf x = l at hplaced
      generalize nodesOf x' = l' at hplaced
      induction hplaced with
      | nil => rfl
      | cons hc _ ih => rw [List.map_cons, List.map_cons, hc.1, ih]

theorem replaceAll_isSome {α : Type} (nodesOf : α → List Cnode)
    {build : α → Memory → Option (α × Memory)} {xs : List α} {m : Memory}
    (hsome : ∀ x ∈ xs, ∀ m, (∀ c ∈ nodesOf x, ∀ a ∈ c.addrs, a < m.next) → (build x m).isSome)
    (hnext : ∀ x m x' m', (∀ c ∈ nodesOf x, ∀ a ∈ c.addrs, a < m.next) →
      build x m = some (x', m') → m.next ≤ m'.next)
    (hlt : ∀ x ∈ xs, ∀ c ∈ nodesOf x, ∀ a ∈ c.addrs, a < m.next) :
    (replaceAll build xs m).isSome := by
  induction xs generalizing m with
  | nil => rfl
  | cons x xs ih =>
    have hx := hlt x List.mem_cons_self
    obtain ⟨⟨x', m'⟩, hbuild⟩ := Option.isSome_iff_exists.mp (hsome x List.mem_cons_self m hx)
    have hle := hnext x m x' m' hx hbuild
    have hxs := ih (m := m') (fun y hy => hsome y (List.mem_cons_of_mem _ hy))
      fun y hy c hc a ha => Nat.lt_of_lt_of_le (hlt y (List.mem_cons_of_mem _ hy) c hc a ha) hle
    simp only [replaceAll, hbuild, Option.isSome_map]
    exact hxs

end Combine

section SplitNode

/-! ## Filling a node just split -/

def Cnode.isLeaf : Cnode → Bool
  | .leaf _ _ _ => true
  | .split _ _ _ _ _ _ => false

/-- The node at `a` split on `f` when the rules `rs` have been added, and the next
address. -/
structure Filled (V : View) (a v f : Nat) (rs : List Nat) (next : Nat) (t : Cnode × Nat) :
    Prop where
  shape : ∃ rs' bs any, t.1 = .split a v rs' f bs any
  le : next ≤ t.2
  rules : t.1.allRules.Perm rs
  addrs : ∀ b ∈ t.1.addrs, b = a ∨ next ≤ b ∧ b < t.2
  nodup : t.1.addrs.Nodup
  placed : ∀ p : Nat → Prop, (∀ r ∈ rs, p r) → Placed V p t.1
  ordered : t.1.Ordered V
  leaves : ∀ c ∈ t.1.children, c.isLeaf = true

theorem Added.isLeaf {r fresh : Nat} {c c' : Cnode} {t : Nat} (h : Added V r fresh c c' t)
    (hc : c.isLeaf = true) : c'.isLeaf = true := by
  cases h <;> first | rfl | exact hc

theorem Added.leaves {r fresh : Nat} {c c' : Cnode} {t : Nat} (h : Added V r fresh c c' t)
    (hc : ∀ d ∈ c.children, d.isLeaf = true) : ∀ d ∈ c'.children, d.isLeaf = true := by
  cases h with
  | leaf => exact hc
  | here => exact hc
  | child hch hfield hadd =>
    obtain ⟨rest, hchildren, hset⟩ := children_child hch
    intro d hd
    rcases List.mem_cons.mp ((hset _).mem_iff.mp hd) with rfl | hd
    · exact hadd.isLeaf (hc _ (hchildren.mem_iff.mpr List.mem_cons_self))
    · exact hc d (hchildren.mem_iff.mpr (List.mem_cons_of_mem _ hd))
  | newChild hch hfield hx =>
    intro d hd
    rcases List.mem_cons.mp ((children_newChild hch _).mem_iff.mp hd) with rfl | hd
    · rfl
    · exact hc d hd
  | anyNode hfield hadd =>
    intro d hd
    rcases List.mem_cons.mp ((children_anyNode _).mem_iff.mp hd) with rfl | hd
    · exact hadd.isLeaf (hc _ ((children_anyNode _).mem_iff.mpr List.mem_cons_self))
    · exact hc d ((children_anyNode _).mem_iff.mpr (List.mem_cons_of_mem _ hd))
  | newAny hfield =>
    intro d hd
    rcases List.mem_cons.mp ((children_anyNode _).mem_iff.mp hd) with rfl | hd
    · rfl
    · exact hc d hd

theorem Added.shape {r fresh a v f t : Nat} {rs : List Nat} {bs : List (List Cnode)}
    {any : Option Cnode} {c' : Cnode} (h : Added V r fresh (.split a v rs f bs any) c' t) :
    ∃ rs' bs' any', c' = .split a v rs' f bs' any' := by
  cases h <;> exact ⟨_, _, _, rfl⟩

theorem Filled.addRule {a v f next : Nat} {rs : List Nat} {t : Cnode × Nat}
    (h : Filled V a v f rs next t) (ha : a < next) (path r : Nat) :
    Filled V a v f (r :: rs) next ((t.1.addRule V r t.2 path).1, t.2 + 1) := by
  have hadd : Added V r t.2 t.1 (t.1.addRule V r t.2 path).1 (t.1.addRule V r t.2 path).2 :=
    (h.placed (fun _ => True) fun _ _ => trivial).added path
  have hentries := hadd.entries.map (·.2)
  have hle := h.le
  refine ⟨?_, Nat.le_succ_of_le h.le, hentries.trans (h.rules.cons r), fun b hb => ?_, ?_,
    fun p hp => ?_, hadd.ordered h.ordered, hadd.leaves h.leaves⟩
  · obtain ⟨rs', bs, any, heq⟩ := h.shape
    rw [heq] at hadd ⊢
    exact hadd.shape
  · rcases hadd.addrs with hperm | hperm
    · exact (h.addrs b (hperm.mem_iff.mp hb)).imp_right fun hb => ⟨hb.1, Nat.lt_succ_of_lt hb.2⟩
    · rcases List.mem_cons.mp (hperm.mem_iff.mp hb) with rfl | hb
      · exact .inr ⟨h.le, Nat.lt_succ_self _⟩
      · exact (h.addrs b hb).imp_right fun hb => ⟨hb.1, Nat.lt_succ_of_lt hb.2⟩
  · rcases hadd.addrs with hperm | hperm
    · exact hperm.nodup_iff.mpr h.nodup
    · refine hperm.nodup_iff.mpr (List.nodup_cons.mpr ⟨fun hmem => ?_, h.nodup⟩)
      rcases h.addrs _ hmem with heq | hlt
      · omega
      · omega
  · exact hadd.placed (h.placed p fun x hx => hp x (List.mem_cons_of_mem _ hx))
      (hp r List.mem_cons_self)

theorem splitNode_filled {path f n a v : Nat} {rs : List Nat} {next : Nat} (hn : 0 < n)
    (ha : a < next) : Filled V a v f rs next (splitNode V path f n a v rs next) := by
  have hloop : ∀ (done rs : List Nat) (t : Cnode × Nat), Filled V a v f done next t →
      ∃ l, l.Perm (rs ++ done) ∧ Filled V a v f l next
        (rs.foldl (fun t r => ((t.1.addRule V r t.2 path).1, t.2 + 1)) t) := by
    intro done rs t ht
    induction rs generalizing done t with
    | nil => exact ⟨done, List.Perm.refl _, ht⟩
    | cons r rs ih =>
      obtain ⟨l, hl, hfilled⟩ := ih (r :: done) _ (ht.addRule ha path r)
      exact ⟨l, hl.trans List.perm_middle, hfilled⟩
  have hstart : Filled V a v f [] next
      (.split a v [] f (List.replicate n []) none, next) := by
    have hchildren : (Cnode.split a v [] f (List.replicate n []) none).children = [] := by
      simp [children]
    refine ⟨⟨_, _, _, rfl⟩, Nat.le_refl _, ?_, fun b hb => ?_, ?_, fun p _ => ?_, ?_, ?_⟩
    · rw [allRules_eq, hchildren]
      exact List.Perm.refl _
    · rw [addrs_eq, hchildren] at hb
      exact .inl (List.mem_singleton.mp hb)
    · rw [addrs_eq, hchildren]
      exact List.nodup_singleton _
    · refine .split (fun r hr => absurd hr List.not_mem_nil) ?_ (fun c hc => ?_) ?_
      · rw [List.map_replicate]
        exact bucketed_replicate hn
      · simp at hc
      · intro c hc
        cases hc
    · rw [ordered_iff, hchildren]
      exact ⟨List.Pairwise.nil, fun c hc => absurd hc List.not_mem_nil⟩
    · rw [hchildren]
      exact fun c hc => absurd hc List.not_mem_nil
  obtain ⟨l, hl, hfilled⟩ := hloop [] rs _ hstart
  rw [List.append_nil] at hl
  exact { hfilled with
    rules := hfilled.rules.trans hl
    placed := fun p hp => hfilled.placed p fun r hr => hp r (hl.mem_iff.mp hr) }

end SplitNode

section BestSplit

/-! ## The choice of the field -/

/-- A field is chosen that the path does not have, or none. -/
theorem bestSplit_fst (path : Nat) (rs : List Nat) :
    (bestSplit V path rs).1 = V.numFields ∨
      (bestSplit V path rs).1 < V.numFields ∧ path.testBit (bestSplit V path rs).1 = false := by
  have hloop : ∀ (is : List Nat) (best : Nat × Nat × Nat) (step : Nat × Nat × Nat → Nat →
      Nat × Nat × Nat), (∀ b i, step b i = b ∨ path.testBit i = false ∧ (step b i).1 = i) →
      (∀ i ∈ is, i < V.numFields) →
      (best.1 = V.numFields ∨ best.1 < V.numFields ∧ path.testBit best.1 = false) →
      ((is.foldl step best).1 = V.numFields ∨ (is.foldl step best).1 < V.numFields ∧
        path.testBit (is.foldl step best).1 = false) := by
    intro is best step hstep hlt hbest
    induction is generalizing best with
    | nil => exact hbest
    | cons i is ih =>
      refine ih _ (fun j hj => hlt j (List.mem_cons_of_mem _ hj)) ?_
      rcases hstep best i with heq | ⟨hbit, heq⟩
      · rw [heq]
        exact hbest
      · rw [heq]
        exact .inr ⟨hlt i List.mem_cons_self, hbit⟩
  refine hloop _ _ _ (fun b i => ?_) (fun i hi => List.mem_range.mp hi) (.inl rfl)
  split
  · exact .inl rfl
  · next hbit =>
    simp only
    split
    · exact .inr ⟨by simpa using hbit, rfl⟩
    · exact .inl rfl

/-- A leaf at `a` split on the field `f`: the node is the same if it is part of a
copy, and a new one otherwise. -/
structure SplitOf (V : View) (path : Nat) (isCopy : Bool) (a v : Nat) (rs : List Nat) (next : Nat)
    (f a' next' : Nat) (t : Cnode × Nat) : Prop where
  field : f < V.numFields
  path : path.testBit f = false
  filled : Filled V a' v f rs next' t
  le : next ≤ next'
  mode : isCopy = true ∧ a' = a ∨ isCopy = false ∧ a' = next ∧ next < next'
  addrs : ∀ b ∈ t.1.addrs, b < t.2

/-- Either nothing happens or a leaf is split. -/
theorem ensureSplit_cases (path : Nat) (isCopy : Bool) {next : Nat} {c : Cnode}
    (hlt : ∀ a ∈ c.addrs, a < next) :
    c.ensureSplit V path isCopy next = (c, next) ∨
      ∃ a v rs f a' next', c = .leaf a v rs ∧
        SplitOf V path isCopy a v rs next f a' next' (c.ensureSplit V path isCopy next) := by
  cases c with
  | split a v rs f bs any => exact .inl rfl
  | leaf a v rs =>
    have ha : a < next := hlt a (by rw [addrs_eq]; exact List.mem_cons_self)
    have hsplit : ∀ {a' next' f n : Nat}, a' < next' → 0 < n →
        Filled V a' v f rs next' (splitNode V path f n a' v rs next') ∧
        ∀ b ∈ (splitNode V path f n a' v rs next').1.addrs,
          b < (splitNode V path f n a' v rs next').2 := by
      intro a' next' f n ha' hn
      have hfilled : Filled V a' v f rs next' (splitNode V path f n a' v rs next') :=
        splitNode_filled hn ha'
      refine ⟨hfilled, fun b hb => ?_⟩
      have hle := hfilled.le
      rcases hfilled.addrs b hb with rfl | hb
      · omega
      · exact hb.2
    rw [Cnode.ensureSplit]
    split
    · exact .inl rfl
    · rw [splitLeaf]
      split
      · exact .inl rfl
      · next hbest =>
        rw [not_or] at hbest
        rcases bestSplit_fst (V := V) path rs with hf | ⟨hf, hbit⟩
        · exact absurd hf hbest.1
        · have hpos : 0 < Nat.nextPowerOfTwo ((bestSplit V path rs).2.2 * 3) :=
            Nat.pos_of_isPowerOfTwo (Nat.isPowerOfTwo_nextPowerOfTwo _)
          refine .inr ⟨a, v, rs, (bestSplit V path rs).1, ?_⟩
          cases isCopy with
          | true =>
            obtain ⟨hfilled, haddrs⟩ := hsplit ha hpos
            exact ⟨a, next, rfl, hf, hbit, hfilled, Nat.le_refl _, .inl ⟨rfl, rfl⟩, haddrs⟩
          | false =>
            obtain ⟨hfilled, haddrs⟩ := hsplit (Nat.lt_succ_self next) hpos
            exact ⟨next, next + 1, rfl, hf, hbit, hfilled, Nat.le_succ _,
              .inr ⟨rfl, rfl, Nat.lt_succ_self _⟩, haddrs⟩

end BestSplit

section Build

/-! ## The new version of a node -/

/-- What `build` returns: the new version of the node, which is at a new address
only when no rule points at the old one. -/
structure Built (V : View) (isCopy : Bool) (c : Cnode) (m : Memory) (c' : Cnode) (m' : Memory) :
    Prop where
  rebuilds : Rebuilds V isCopy [c] m [c'] m'
  addr : c'.addr = c.addr ∨ isCopy = false ∧
    ∀ r ∈ c.allRules, ∃ a, m.next ≤ a ∧ m'.node r = some a

/-- The old version is deleted, which no rule notices. -/
theorem Built.destroy {c c' : Cnode} {m m' : Memory} (h : Built V isCopy c m c' m')
    (hlt : ∀ a ∈ c.addrs, a < m.next) : (if c'.addr = c.addr then m' else m'.destroy c) = m' := by
  split
  · rfl
  · next hne =>
    refine destroy_eq fun e he hnode => ?_
    rcases h.addr with heq | ⟨-, hnew⟩
    · exact hne heq
    · obtain ⟨a, ha, hnode'⟩ := hnew e.2 (List.mem_map_of_mem he)
      cases hnode.symm.trans hnode'
      exact absurd (hlt _ (mem_addrs_of_mem_entries he)) (Nat.not_lt.mpr ha)

section Children

variable {build : Cnode → Memory → Option (Cnode × Memory)}
  (hbuild : ∀ c m c' m', (∀ a ∈ c.addrs, a < m.next) → build c m = some (c', m') →
    Built V isCopy c m c' m')

include hbuild

theorem replaceChild_rebuilds (c : Cnode) (m : Memory) (c' : Cnode) (m' : Memory)
    (hlt : ∀ d ∈ [c], ∀ a ∈ d.addrs, a < m.next) (h : replaceChild build c m = some (c', m')) :
    Rebuilds V isCopy [c] m [c'] m' := by
  have hlt := hlt c List.mem_cons_self
  obtain ⟨⟨d, m₁⟩, hd, heq⟩ := Option.map_eq_some_iff.mp h
  cases heq
  have hbuilt := hbuild c m d m₁ hlt hd
  rw [hbuilt.destroy hlt]
  exact hbuilt.rebuilds

theorem replaceChain_rebuilds (ch : List Cnode) (m : Memory) (ch' : List Cnode) (m' : Memory)
    (hlt : ∀ c ∈ ch, ∀ a ∈ c.addrs, a < m.next)
    (h : replaceAll (replaceChild build) ch m = some (ch', m')) : Rebuilds V isCopy ch m ch' m' := by
  have hloop := (replaceAll_rebuilds (fun c => [c]) (replaceChild_rebuilds hbuild)
    (fun c hc d hd => List.mem_singleton.mp hd ▸ hlt c hc) h).1
  simpa using hloop

theorem buildChildren_rebuilds {bs bs' : List (List Cnode)} {any any' : Option Cnode}
    {m m' : Memory} (hlt : ∀ c ∈ bs.flatten ++ any.toList, ∀ a ∈ c.addrs, a < m.next)
    (h : buildChildren build bs any m = some (bs', any', m')) :
    ∃ m₁, Rebuilds V isCopy bs.flatten m bs'.flatten m₁ ∧
      Rebuilds V isCopy any.toList m₁ any'.toList m' ∧
      bs'.map (fun ch => ch.map value) = bs.map fun ch => ch.map value := by
  unfold buildChildren at h
  split at h
  · cases h
  · next bs₁ m₁ hbs =>
    obtain ⟨hrebuilds, hvalues⟩ := replaceAll_rebuilds (fun ch => ch)
      (replaceChain_rebuilds hbuild)
      (fun ch hch c hc => hlt c (List.mem_append_left _ (List.mem_flatten.mpr ⟨ch, hch, hc⟩))) hbs
    rw [List.flatMap_id', List.flatMap_id'] at hrebuilds
    cases any with
    | none =>
      cases h
      exact ⟨_, hrebuilds, Rebuilds.refl _ _, hvalues⟩
    | some c =>
      obtain ⟨⟨d, m₂⟩, hd, heq⟩ := Option.map_eq_some_iff.mp h
      cases heq
      refine ⟨m₁, hrebuilds, replaceChild_rebuilds hbuild c m₁ d m₂ (fun e he a ha => ?_) hd,
        hvalues⟩
      have hmem : e ∈ bs.flatten ++ (some c).toList := List.mem_append_right _ (by simpa using he)
      exact Nat.lt_of_lt_of_le (hlt e hmem a ha) hrebuilds.next

theorem buildChildren_isSome {bs : List (List Cnode)} {any : Option Cnode} {m : Memory}
    (hsome : ∀ c ∈ bs.flatten ++ any.toList, ∀ m, (∀ a ∈ c.addrs, a < m.next) → (build c m).isSome)
    (hlt : ∀ c ∈ bs.flatten ++ any.toList, ∀ a ∈ c.addrs, a < m.next) :
    (buildChildren build bs any m).isSome := by
  have hchain : ∀ ch ∈ bs, ∀ m, (∀ c ∈ ch, ∀ a ∈ c.addrs, a < m.next) →
      (replaceAll (replaceChild build) ch m).isSome := by
    intro ch hch m hlt
    refine replaceAll_isSome (fun c => [c]) (fun c hc m hlt => ?_)
      (fun c m c' m' hlt h => (replaceChild_rebuilds hbuild c m c' m' hlt h).next)
      (fun c hc d hd => List.mem_singleton.mp hd ▸ hlt c hc)
    rw [replaceChild, Option.isSome_map]
    exact hsome c (List.mem_append_left _ (List.mem_flatten.mpr ⟨ch, hch, hc⟩)) m
      (hlt c List.mem_cons_self)
  obtain ⟨⟨bs', m₁⟩, hbs⟩ := Option.isSome_iff_exists.mp
    (replaceAll_isSome (fun ch => ch) (m := m) hchain
      (fun ch m ch' m' hlt h => (replaceChain_rebuilds hbuild ch m ch' m' hlt h).next)
      (fun ch hch c hc => hlt c (List.mem_append_left _ (List.mem_flatten.mpr ⟨ch, hch, hc⟩))))
  have hle := (replaceAll_rebuilds (fun ch => ch) (replaceChain_rebuilds hbuild)
    (fun ch hch c hc => hlt c (List.mem_append_left _ (List.mem_flatten.mpr ⟨ch, hch, hc⟩)))
    hbs).1.next
  unfold buildChildren
  rw [hbs]
  cases any with
  | none => rfl
  | some c =>
    have hc : c ∈ bs.flatten ++ (some c).toList := List.mem_append_right _ (by simp)
    simp only [replaceChild, Option.map_map, Option.isSome_map]
    exact hsome c hc m₁ fun a ha => Nat.lt_of_lt_of_le (hlt c hc a ha) hle

end Children

/-- A node that is split gets new children. -/
theorem children_rebuilds {fuel path : Nat} {a v : Nat} {rs : List Nat} {f : Nat}
    {bs bs' : List (List Cnode)} {any any' : Option Cnode} {m m' : Memory}
    (ih : ∀ {c m c' m'}, (∀ a ∈ c.addrs, a < m.next) →
      c.build V fuel path isCopy m = some (c', m') → Built V isCopy c m c' m')
    (hlt : ∀ b ∈ (Cnode.split a v rs f bs any).addrs, b < m.next)
    (h : buildChildren (fun c => c.build V fuel path isCopy) bs any m = some (bs', any', m')) :
    Rebuilds V isCopy [.split a v rs f bs any] m [.split a v rs f bs' any'] m' := by
  rw [addrs_eq] at hlt
  obtain ⟨m₁, hbs, hany, hvalues⟩ := buildChildren_rebuilds (fun c m c' m' hlt h => ih hlt h)
    (fun c hc b hb => hlt b (List.mem_cons_of_mem _ (List.mem_flatMap.mpr ⟨c, hc, hb⟩))) h
  exact hbs.split hany hvalues (hlt a List.mem_cons_self)

/-- A leaf that has been split. -/
theorem Filled.rebuilds {a a' v f : Nat} {rs : List Nat} {m : Memory} {next : Nat}
    {t : Cnode × Nat} (h : Filled V a' v f rs next t) (hnext : m.next ≤ next)
    (ha : a' = a ∨ m.next ≤ a' ∧ a' < next) :
    Rebuilds V true [.leaf a v rs] m [t.1] { m with next := t.2 } where
  next := Nat.le_trans hnext h.le
  rules := by
    simp only [List.flatMap_singleton, allRules_eq (.leaf a v rs), children, List.flatMap_nil,
      List.append_nil]
    exact h.rules
  addrs := by
    intro b hb
    have hle := h.le
    simp only [List.flatMap_singleton] at hb ⊢
    rcases h.addrs b hb with rfl | hb
    · refine ha.imp (fun heq => ?_) fun hb => ⟨hb.1, Nat.lt_of_lt_of_le hb.2 h.le⟩
      rw [heq, addrs_eq]
      exact List.mem_cons_self
    · exact .inr ⟨by omega, hb.2⟩
  nodup := fun _ _ => by simpa using h.nodup
  placed := by
    obtain ⟨rs', bs, any, heq⟩ := h.shape
    refine .cons ⟨by rw [heq]; rfl, fun p hp => h.placed p ?_⟩ .nil
    cases hp with
    | leaf hrs => exact hrs
  ordered := fun _ c hc => List.mem_singleton.mp hc ▸ h.ordered
  frame := fun _ _ => rfl
  pointers := fun hcopy => nomatch hcopy

theorem build_rebuilds {fuel path : Nat} {c c' : Cnode} {m m' : Memory}
    (hlt : ∀ a ∈ c.addrs, a < m.next) (h : c.build V fuel path isCopy m = some (c', m')) :
    Built V isCopy c m c' m' := by
  induction fuel generalizing path isCopy c m c' m' with
  | zero => cases h
  | succ fuel ih =>
    rw [Cnode.build] at h
    rcases ensureSplit_cases (V := V) path isCopy hlt with
      heq | ⟨a, v, rs, f, a', next, rfl, hsplitOf⟩
    · rw [heq] at h
      cases c with
      | leaf a v rs =>
        cases h
        exact ⟨Rebuilds.refl _ _, .inl rfl⟩
      | split a v rs f bs any =>
        have hcopy : (isCopy || a != (Cnode.split a v rs f bs any).addr) = isCopy := by
          simp [Cnode.addr]
        simp only [hcopy] at h
        split at h
        · cases h
        · next bs' any' m₁ hchildren =>
          have hrebuilds := children_rebuilds (fun hlt h => ih hlt h) hlt hchildren
          have hnot : (isCopy && !isCopy) = false := by cases isCopy <;> rfl
          rw [hnot] at h
          cases h
          exact ⟨hrebuilds, .inl rfl⟩
    · have ha : a < m.next := hlt a (by rw [addrs_eq]; exact List.mem_cons_self)
      generalize (Cnode.leaf a v rs).ensureSplit V path isCopy m.next = t at h hsplitOf
      have hfilled := hsplitOf.filled
      have hmode := hsplitOf.mode
      have hsplit : Rebuilds V true [.leaf a v rs] m [t.1] { m with next := t.2 } :=
        hfilled.rebuilds hsplitOf.le (by
          rcases hmode with ⟨-, rfl⟩ | ⟨-, rfl, hm⟩
          · exact .inl rfl
          · exact .inr ⟨Nat.le_refl _, hm⟩)
      obtain ⟨t, next'⟩ := t
      obtain ⟨rs', bs, any, rfl⟩ := hfilled.shape
      have hcopy : (isCopy || a' != a) = true := by
        rcases hmode with ⟨rfl, -⟩ | ⟨-, rfl, -⟩
        · rfl
        · have hne : m.next ≠ a := by omega
          simp [hne]
      simp only [Cnode.addr, hcopy] at h
      split at h
      · cases h
      · next bs' any' m₁ hchildren =>
        have hchild := children_rebuilds (fun hlt h => ih hlt h) hsplitOf.addrs hchildren
        have hrebuilds := hsplit.trans hchild
        rcases hmode with ⟨rfl, rfl⟩ | ⟨rfl, rfl, -⟩
        · cases h
          exact ⟨hrebuilds, .inl rfl⟩
        · cases h
          refine ⟨hrebuilds.publish, .inr ⟨rfl, fun r hr => ?_⟩⟩
          rcases setNodePointers_node m₁ (.split m.next v rs' f bs' any') r with
            ⟨b, hb, hnode⟩ | ⟨hr', -⟩
          · refine ⟨b, ?_, hnode⟩
            have haddr := hchild.addrs b
            simp only [List.flatMap_singleton] at haddr
            rcases haddr (mem_addrs_of_mem_entries hb) with hold | hnew'
            · rcases hfilled.addrs b hold with rfl | hb'
              · exact Nat.le_refl _
              · exact Nat.le_trans hsplitOf.le hb'.1
            · exact Nat.le_trans (Nat.le_trans hsplitOf.le hfilled.le) hnew'.1
          · have hmem := hrebuilds.rules.mem_iff (a := r)
            simp only [List.flatMap_singleton] at hmem
            exact absurd (hmem.mpr hr) hr'

end Build

section Fuel

/-! ## The fuel is enough -/

/-- The fields that a path has not been split on. -/
def remaining (V : View) (path : Nat) : Nat :=
  ((Finset.range V.numFields).filter fun i => path.testBit i = false).card

theorem remaining_or_le (path x : Nat) : remaining V (path ||| x) ≤ remaining V path := by
  refine Finset.card_le_card fun i hi => ?_
  rw [Finset.mem_filter, Nat.testBit_or, Bool.or_eq_false_iff] at hi
  exact Finset.mem_filter.mpr ⟨hi.1, hi.2.1⟩

theorem remaining_or_lt {path f : Nat} (hf : f < V.numFields) (hbit : path.testBit f = false) :
    remaining V (path ||| 2 ^ f) < remaining V path := by
  refine Finset.card_lt_card ⟨fun i hi => ?_, fun hsub => ?_⟩
  · rw [Finset.mem_filter, Nat.testBit_or, Bool.or_eq_false_iff] at hi
    exact Finset.mem_filter.mpr ⟨hi.1, hi.2.1⟩
  · have hmem := hsub (Finset.mem_filter.mpr ⟨Finset.mem_range.mpr hf, hbit⟩)
    rw [Finset.mem_filter, Nat.testBit_or, Nat.testBit_two_pow_self, Bool.or_true] at hmem
    cases hmem.2

theorem remaining_zero_le (path : Nat) : remaining V path ≤ V.numFields := by
  refine (Finset.card_filter_le _ _).trans ?_
  rw [Finset.card_range]

theorem size_pos (c : Cnode) : 0 < c.size := by
  rw [size_eq]
  exact Nat.succ_pos _

theorem size_child {c d : Cnode} (hd : d ∈ c.children) : d.size < c.size := by
  rw [size_eq c]
  exact Nat.lt_succ_of_le (List.le_sum_of_mem (List.mem_map_of_mem hd))

theorem size_of_isLeaf {c : Cnode} (hc : c.isLeaf = true) : c.size = 1 := by
  cases c with
  | leaf a v rs => rfl
  | split a v rs f bs any => cases hc

/-- `build` returns. -/
theorem build_isSome {fuel path : Nat} {c : Cnode} {m : Memory} (hlt : ∀ a ∈ c.addrs, a < m.next)
    (hfuel : c.size + remaining V path ≤ fuel) : (c.build V fuel path isCopy m).isSome := by
  induction fuel generalizing path isCopy c m with
  | zero =>
    have hpos := size_pos c
    omega
  | succ fuel ih =>
    have hnode : ∀ (isCopy : Bool) {a v : Nat} {rs : List Nat} {f : Nat} {bs : List (List Cnode)}
        {any : Option Cnode} {m : Memory},
        (∀ b ∈ (Cnode.split a v rs f bs any).addrs, b < m.next) →
        (∀ d ∈ (Cnode.split a v rs f bs any).children,
          d.size + remaining V (path ||| 2 ^ f) ≤ fuel) →
        (buildChildren (fun c => c.build V fuel (path ||| 2 ^ f) isCopy) bs any m).isSome := by
      intro isCopy a v rs f bs any m hlt hfuel
      rw [addrs_eq] at hlt
      have hbuild : ∀ c m c' m', (∀ a ∈ c.addrs, a < m.next) →
          c.build V fuel (path ||| 2 ^ f) isCopy m = some (c', m') → Built V isCopy c m c' m' :=
        fun c m c' m' hlt h => build_rebuilds hlt h
      exact buildChildren_isSome hbuild (fun d hd m hm => ih hm (hfuel d hd))
        fun d hd b hb => hlt b (List.mem_cons_of_mem _ (List.mem_flatMap.mpr ⟨d, hd, hb⟩))
    rw [Cnode.build]
    rcases ensureSplit_cases (V := V) path isCopy hlt with
      heq | ⟨a, v, rs, f, a', next, rfl, hsplitOf⟩
    · rw [heq]
      cases c with
      | leaf a v rs => rfl
      | split a v rs f bs any =>
        obtain ⟨t, ht⟩ := Option.isSome_iff_exists.mp
          (hnode (isCopy || a != (Cnode.split a v rs f bs any).addr) hlt fun d hd => by
            have hsize := size_child hd
            have hle := remaining_or_le (V := V) path (2 ^ f)
            omega)
        simp only [ht]
        rfl
    · generalize (Cnode.leaf a v rs).ensureSplit V path isCopy m.next = t at hsplitOf
      obtain ⟨t, next'⟩ := t
      obtain ⟨rs', bs, any, rfl⟩ := hsplitOf.filled.shape
      obtain ⟨t, ht⟩ := Option.isSome_iff_exists.mp
        (hnode (isCopy || a' != (Cnode.leaf a v rs).addr)
          (m := { m with next := next' }) hsplitOf.addrs fun d hd => by
            have hleaf := size_of_isLeaf (hsplitOf.filled.leaves d hd)
            have hlt := remaining_or_lt hsplitOf.field hsplitOf.path
            have hpos := size_pos (Cnode.leaf a v rs)
            omega)
      simp only [ht]
      rfl

end Fuel

end Nox.Classify
