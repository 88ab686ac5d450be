import Mathlib.Algebra.GroupWithZero.Nat
import Mathlib.Data.List.Perm.Subperm
import Mathlib.Data.List.Dedup

/-!
# The nodes of the classifier

A `Cnode` holds a list of rules and, when it is split on a field, an array of
buckets of children, one child for each value of the field, and a child for the
rules that leave the field open.  A rule is pointed at from the list of its node
and from the table of the classifier; here such a pointer is the id of the rule,
and a `View` says what the pointers of a node lead to.  The nodes have addresses,
as a rule points back at its node.
-/

namespace Nox.Classify

section Rules

/-! ## What the rules of a node look like -/

/-- The constants of `Expr`, and what a pointer to a rule leads to. -/
structure View where
  numFields : Nat
  leafThreshold : Nat
  priority : Nat → Nat
  getField : Nat → Nat → Option Nat
  splittable : Nat → Nat → Bool

variable (V : View)

/-- `add_rule_to_list` -/
def addRuleToList (r : Nat) : List Nat → List Nat
  | [] => [r]
  | x :: rules =>
    if V.priority r ≤ V.priority x then r :: x :: rules else x :: addRuleToList r rules

/-- `get_bucket`, in `uint32_t`. -/
def getBucket (value mask : Nat) : Nat :=
  value * 2654435761 % 2 ^ 32 &&& mask

theorem addRuleToList_perm (r : Nat) (rules : List Nat) :
    (addRuleToList V r rules).Perm (r :: rules) := by
  induction rules with
  | nil => exact List.Perm.refl _
  | cons x rules ih =>
    unfold addRuleToList
    split
    · exact List.Perm.refl _
    · exact (ih.cons x).trans (List.Perm.swap r x rules)

theorem addRuleToList_ordered (r : Nat) {rules : List Nat}
    (h : rules.Pairwise fun x y => V.priority x ≤ V.priority y) :
    (addRuleToList V r rules).Pairwise fun x y => V.priority x ≤ V.priority y := by
  induction rules with
  | nil => exact List.pairwise_singleton _ _
  | cons x rules ih =>
    obtain ⟨hx, hrules⟩ := List.pairwise_cons.mp h
    unfold addRuleToList
    split
    · next hle =>
      refine h.cons fun y hy => ?_
      rcases List.mem_cons.mp hy with rfl | hy
      · exact hle
      · exact Nat.le_trans hle (hx y hy)
    · next hlt =>
      refine (ih hrules).cons fun y hy => ?_
      rcases List.mem_cons.mp ((addRuleToList_perm V r rules).mem_iff.mp hy) with rfl | hy
      · exact Nat.le_of_not_le hlt
      · exact hx y hy

theorem getBucket_le (value mask : Nat) : getBucket value mask ≤ mask :=
  Nat.and_le_right

end Rules

section Tree

/-! ## The tree -/

/-- `Cnode`; a node that is not split has no buckets. -/
inductive Cnode
  | leaf (addr value : Nat) (rules : List Nat)
  | split (addr value : Nat) (rules : List Nat) (splitField : Nat)
      (buckets : List (List Cnode)) (anyNode : Option Cnode)

namespace Cnode

def addr : Cnode → Nat
  | .leaf a _ _ => a
  | .split a _ _ _ _ _ => a

def value : Cnode → Nat
  | .leaf _ v _ => v
  | .split _ v _ _ _ _ => v

def rules : Cnode → List Nat
  | .leaf _ _ rs => rs
  | .split _ _ rs _ _ _ => rs

/-- The children, in the order of the recursive functions. -/
def children : Cnode → List Cnode
  | .leaf _ _ _ => []
  | .split _ _ _ _ bs any => bs.flatten ++ any.toList

@[elab_as_elim, induction_eliminator]
theorem induct {p : Cnode → Prop} (leaf : ∀ a v rs, p (.leaf a v rs))
    (split : ∀ a v rs f bs any, (∀ c ∈ bs.flatten ++ any.toList, p c) →
      p (.split a v rs f bs any)) (c : Cnode) : p c := by
  refine @Cnode.rec p (fun bs => ∀ ch ∈ bs, ∀ c ∈ ch, p c) (fun any => ∀ c ∈ any, p c)
    (fun ch => ∀ c ∈ ch, p c) leaf ?_ ?_ ?_ ?_ ?_ ?_ ?_ c
  · intro a v rs f bs any hbs hany
    refine split a v rs f bs any fun c hc => ?_
    rcases List.mem_append.mp hc with hc | hc
    · obtain ⟨ch, hch, hc⟩ := List.mem_flatten.mp hc
      exact hbs ch hch c hc
    · exact hany c (Option.mem_toList.mp hc)
  · exact fun ch hch => nomatch hch
  · intro ch bs hch hbs ch' hch' c hc
    rcases List.mem_cons.mp hch' with rfl | hch'
    · exact hch c hc
    · exact hbs ch' hch' c hc
  · exact fun c hc => nomatch hc
  · intro c hc c' hc'
    cases hc'
    exact hc
  · exact fun c hc => nomatch hc
  · intro c ch hc hch c' hc'
    rcases List.mem_cons.mp hc' with rfl | hc'
    · exact hc
    · exact hch c' hc'

mutual

/-- The nodes of a subtree with their lists, as `set_node_pointers`,
`add_node_rules` and the destructor come by them. -/
def nodes : Cnode → List (Nat × List Nat)
  | .leaf a _ rs => [(a, rs)]
  | .split a _ rs _ bs any => (a, rs) :: (nodesBuckets bs ++ nodesAny any)

def nodesBuckets : List (List Cnode) → List (Nat × List Nat)
  | [] => []
  | ch :: bs => nodesChain ch ++ nodesBuckets bs

def nodesChain : List Cnode → List (Nat × List Nat)
  | [] => []
  | c :: ch => c.nodes ++ nodesChain ch

def nodesAny : Option Cnode → List (Nat × List Nat)
  | none => []
  | some c => c.nodes
end

def addrs (c : Cnode) : List Nat :=
  c.nodes.map (·.1)

/-- The rules of a subtree, each with the address of its node. -/
def entries (c : Cnode) : List (Nat × Nat) :=
  c.nodes.flatMap fun n => n.2.map fun r => (n.1, r)

mutual

/-- Changes the list of the node at an address. -/
def atAddr (addr : Nat) (g : List Nat → List Nat) : Cnode → Cnode
  | .leaf a v rs => .leaf a v (if a = addr then g rs else rs)
  | .split a v rs f bs any =>
    .split a v (if a = addr then g rs else rs) f (atAddrBuckets addr g bs) (atAddrAny addr g any)

def atAddrBuckets (addr : Nat) (g : List Nat → List Nat) : List (List Cnode) → List (List Cnode)
  | [] => []
  | ch :: bs => atAddrChain addr g ch :: atAddrBuckets addr g bs

def atAddrChain (addr : Nat) (g : List Nat → List Nat) : List Cnode → List Cnode
  | [] => []
  | c :: ch => c.atAddr addr g :: atAddrChain addr g ch

def atAddrAny (addr : Nat) (g : List Nat → List Nat) : Option Cnode → Option Cnode
  | none => none
  | some c => some (c.atAddr addr g)

end

mutual

/-- `clean`: whether the node can be deleted, and the node. -/
def clean : Cnode → Bool × Cnode
  | .leaf a v rs => (rs.isEmpty, .leaf a v rs)
  | .split a v rs f bs any =>
    let bs := cleanBuckets bs
    let any := cleanAny any
    (rs.isEmpty && bs.1 && any.1, .split a v rs f bs.2 any.2)

def cleanBuckets : List (List Cnode) → Bool × List (List Cnode)
  | [] => (true, [])
  | ch :: bs =>
    let ch := cleanChain ch
    let bs := cleanBuckets bs
    (ch.1 && bs.1, ch.2 :: bs.2)

def cleanChain : List Cnode → Bool × List Cnode
  | [] => (true, [])
  | c :: ch =>
    let c := c.clean
    let ch := cleanChain ch
    if c.1 then ch else (false, c.2 :: ch.2)

def cleanAny : Option Cnode → Bool × Option Cnode
  | none => (true, none)
  | some c =>
    let c := c.clean
    if c.1 then (true, none) else (false, some c.2)
end

mutual

/-- `add_rule`: the node, and the address of the node the rule is added to.
`fresh` is what `new` returns if it is called. -/
def addRule (V : View) (r fresh : Nat) (path : Nat) : Cnode → Cnode × Nat
  | .leaf a v rs => (.leaf a v (addRuleToList V r rs), a)
  | .split a v rs f bs any =>
    if V.splittable r path then
      match V.getField r f with
      | some x =>
        let t := addRuleBuckets V r fresh (path ||| 2 ^ f) x bs (getBucket x (bs.length - 1))
        (.split a v rs f t.1 any, t.2)
      | none =>
        let t := addRuleAny V r fresh (path ||| 2 ^ f) any
        (.split a v rs f bs (some t.1), t.2)
    else (.split a v (addRuleToList V r rs) f bs any, a)

def addRuleBuckets (V : View) (r fresh : Nat) (path x : Nat) :
    List (List Cnode) → Nat → List (List Cnode) × Nat
  | [], _ => ([], fresh)
  | ch :: bs, 0 =>
    match addRuleChain V r fresh path x ch with
    | some t => (t.1 :: bs, t.2)
    | none => ((.leaf fresh x (addRuleToList V r []) :: ch) :: bs, fresh)
  | ch :: bs, i + 1 =>
    let t := addRuleBuckets V r fresh path x bs i
    (ch :: t.1, t.2)

/-- Goes on in the child with the value `x`, if there is one. -/
def addRuleChain (V : View) (r fresh : Nat) (path x : Nat) :
    List Cnode → Option (List Cnode × Nat)
  | [] => none
  | c :: ch =>
    if c.value = x then
      let t := c.addRule V r fresh path
      some (t.1 :: ch, t.2)
    else (addRuleChain V r fresh path x ch).map fun t => (c :: t.1, t.2)

def addRuleAny (V : View) (r fresh : Nat) (path : Nat) : Option Cnode → Cnode × Nat
  | none => (.leaf fresh 0 (addRuleToList V r []), fresh)
  | some c => c.addRule V r fresh path
end

end Cnode

end Tree

section Build

/-! ## Splitting and building -/

/-- What the nodes are allocated from, and the `node` of every rule. -/
structure Memory where
  next : Nat
  node : Nat → Option Nat

variable (V : View)

/-- `exp_rules_with_split`: the rules expected after a split on `field`, and the
number of buckets in use. -/
def expRulesWithSplit (rules : List Nat) (field mask : Nat) : Nat × Nat :=
  let values := rules.filterMap fun r => V.getField r field
  let nAnys := rules.length - values.length
  let nDistinct := (values.map fun x => getBucket x mask).dedup.length
  if nDistinct = 0 then (nAnys, 0) else (nAnys + values.length / nDistinct, nDistinct)

/-- `best_split`: the field, the rules expected, and the buckets in use. -/
def bestSplit (path : Nat) (rules : List Nat) : Nat × Nat × Nat :=
  let nBuckets := Nat.nextPowerOfTwo (rules.length * 3)
  (List.range V.numFields).foldl (fun best i =>
    if path.testBit i then best
    else
      let e := expRulesWithSplit V rules i (nBuckets - 1)
      if best.1 = V.numFields ∨ e.1 < best.2.1 then (i, e.1, e.2) else best)
    (V.numFields, 0, 0)

/-- The loop of `add_rule` calls that fills a node just split. -/
def splitNode (path field nBuckets addr value : Nat) (rules : List Nat) (next : Nat) :
    Cnode × Nat :=
  rules.foldl (fun t r => ((t.1.addRule V r t.2 path).1, t.2 + 1))
    (.split addr value [] field (List.replicate nBuckets []) none, next)

/-- `split` of a node that is not split yet. -/
def splitLeaf (path : Nat) (isCopy : Bool) (addr value : Nat) (rules : List Nat) (next : Nat) :
    Cnode × Nat :=
  let best := bestSplit V path rules
  if best.1 = V.numFields ∨ rules.length - best.2.1 < V.leafThreshold then
    (.leaf addr value rules, next)
  else
    let nBuckets := Nat.nextPowerOfTwo (best.2.2 * 3)
    if isCopy then splitNode V path best.1 nBuckets addr value rules next
    else splitNode V path best.1 nBuckets next value rules (next + 1)

/-- `set_node_pointers` -/
def Memory.setNodePointers (m : Memory) (c : Cnode) : Memory :=
  c.entries.foldl (fun m e => { m with node := Function.update m.node e.2 (some e.1) }) m

/-- The destructor, for the `node` of the rules. -/
def Memory.destroy (m : Memory) (c : Cnode) : Memory :=
  c.entries.foldl (fun m e =>
    if m.node e.2 = some e.1 then { m with node := Function.update m.node e.2 none } else m) m

/-- A loop over nodes that replaces each by its new version. -/
def replaceAll {α : Type} (build : α → Memory → Option (α × Memory)) :
    List α → Memory → Option (List α × Memory)
  | [], m => some ([], m)
  | c :: l, m =>
    match build c m with
    | none => none
    | some (c', m) => (replaceAll build l m).map fun t => (c' :: t.1, t.2)

/-- The call of `build` for a child: the old version is deleted. -/
def replaceChild (build : Cnode → Memory → Option (Cnode × Memory)) (c : Cnode) (m : Memory) :
    Option (Cnode × Memory) :=
  (build c m).map fun t => (t.1, if t.1.addr = c.addr then t.2 else t.2.destroy c)

/-- `build_children` -/
def buildChildren (build : Cnode → Memory → Option (Cnode × Memory))
    (bs : List (List Cnode)) (any : Option Cnode) (m : Memory) :
    Option (List (List Cnode) × Option Cnode × Memory) :=
  match replaceAll (replaceAll (replaceChild build)) bs m with
  | none => none
  | some (bs, m) =>
    match any with
    | none => some (bs, none, m)
    | some c => (replaceChild build c m).map fun t => (bs, some t.1, t.2)

/-- The first part of `build`: the node is split if it is not. -/
def Cnode.ensureSplit (path : Nat) (isCopy : Bool) (next : Nat) : Cnode → Cnode × Nat
  | .leaf a v rs =>
    if rs.length ≤ V.leafThreshold then (.leaf a v rs, next)
    else splitLeaf V path isCopy a v rs next
  | c => (c, next)

/-- `build`; the fuel bounds the depth of the calls. -/
def Cnode.build : Nat → Nat → Bool → Cnode → Memory → Option (Cnode × Memory)
  | 0, _, _, _, _ => none
  | fuel + 1, path, isCopy, c, m =>
    match c.ensureSplit V path isCopy m.next with
    | (.leaf a v rs, next) => some (.leaf a v rs, { m with next := next })
    | (.split a v rs f bs any, next) =>
      let newIsCopy := isCopy || a != c.addr
      match buildChildren (Cnode.build fuel (path ||| 2 ^ f) newIsCopy) bs any
          { m with next := next } with
      | none => none
      | some (bs, any, m) =>
        let c' := Cnode.split a v rs f bs any
        -- the head of a copy: it becomes part of the tree
        some (c', if newIsCopy && !isCopy then m.setNodePointers c' else m)

/-- `unbuild` -/
def Cnode.unbuild (m : Memory) : Cnode → Cnode × Memory
  | .leaf a v rs => (.leaf a v rs, m)
  | .split a v rs f bs any =>
    let rules := (Cnode.split a v rs f bs any).nodes.foldl
      (fun l n => l.merge n.2 fun x y => !decide (V.priority y < V.priority x)) []
    let c := Cnode.leaf m.next v rules
    (c, { m with next := m.next + 1 }.setNodePointers c)

end Build

end Nox.Classify
