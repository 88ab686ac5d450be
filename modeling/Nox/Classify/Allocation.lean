import Nox.Classify.Flat

/-!
# When memory runs out

The operations that allocate, with the number of allocations that still succeed: the one
after these throws.  What is left of it is carried along, and nothing is left once an
exception has been thrown.  A node that is built in place stays as far as it has come; the
copy of a node is deleted by the call that has made it.
-/

namespace Nox.Classify

section AddRule

/-! ## Adding a rule -/

variable (V : View) (r fresh : Nat)

/-- `add_rule_to_list` -/
def tryAddRuleToList : Nat → List Nat → List Nat × Option Nat
  | 0, rules => (rules, none)
  | n + 1, rules => (addRuleToList V r rules, some n)

/-- A child is made, and the rule is added to it; without memory for the rule it stays. -/
def tryNewChild (x : Nat) : Nat → Option Cnode × Option (Nat × Nat)
  | 0 => (none, none)
  | n + 1 =>
    let t := tryAddRuleToList V r n []
    (some (.leaf fresh x t.1), t.2.map (fresh, ·))

mutual

/-- `add_rule`: the node, and, if the rule was added, the address of its node and the
allocations that are left. -/
def Cnode.tryAddRule (path n : Nat) : Cnode → Cnode × Option (Nat × Nat)
  | .leaf a v rs =>
    let t := tryAddRuleToList V r n rs
    (.leaf a v t.1, t.2.map (a, ·))
  | .split a v rs f bs any =>
    if V.splittable r path then
      match V.getField r f with
      | some x =>
        let t := tryAddRuleBuckets (path ||| 2 ^ f) n x bs (getBucket x (bs.length - 1))
        (.split a v rs f t.1 any, t.2)
      | none =>
        let t := tryAddRuleAny (path ||| 2 ^ f) n any
        (.split a v rs f bs t.1, t.2)
    else
      let t := tryAddRuleToList V r n rs
      (.split a v t.1 f bs any, t.2.map (a, ·))

def tryAddRuleBuckets (path n x : Nat) :
    List (List Cnode) → Nat → List (List Cnode) × Option (Nat × Nat)
  | [], _ => ([], some (fresh, n))
  | ch :: bs, 0 =>
    match tryAddRuleChain path n x ch with
    | some t => (t.1 :: bs, t.2)
    | none =>
      let t := tryNewChild V r fresh x n
      ((t.1.toList ++ ch) :: bs, t.2)
  | ch :: bs, i + 1 =>
    let t := tryAddRuleBuckets path n x bs i
    (ch :: t.1, t.2)

def tryAddRuleChain (path n x : Nat) : List Cnode → Option (List Cnode × Option (Nat × Nat))
  | [] => none
  | c :: ch =>
    if c.value = x then
      let t := c.tryAddRule path n
      some (t.1 :: ch, t.2)
    else (tryAddRuleChain path n x ch).map fun t => (c :: t.1, t.2)

def tryAddRuleAny (path n : Nat) : Option Cnode → Option Cnode × Option (Nat × Nat)
  | none => tryNewChild V r fresh 0 n
  | some c =>
    let t := c.tryAddRule path n
    (some t.1, t.2)

end

end AddRule

section Build

/-! ## Splitting and building -/

variable (V : View)

/-- The rules are added to a node just split, until one cannot be. -/
def tryFill (path : Nat) : List Nat → Cnode × Nat → Nat → (Cnode × Nat) × Option Nat
  | [], t, n => (t, some n)
  | r :: rules, t, n =>
    match t.1.tryAddRule V r t.2 path n with
    | (c, none) => ((c, t.2 + 1), none)
    | (c, some (_, n)) => tryFill path rules (c, t.2 + 1) n

/-- `split` -/
def trySplit (path : Nat) (isCopy : Bool) (addr value : Nat) (rules : List Nat) (m : Memory) :
    Nat → Cnode × Memory × Option Nat
  -- the vector of `best_split`
  | 0 => (.leaf addr value rules, m, none)
  | n + 1 =>
    let best := bestSplit V path rules
    if best.1 = V.numFields ∨ rules.length - best.2.1 < V.leafThreshold then
      (.leaf addr value rules, m, some n)
    else
      let buckets := List.replicate (Nat.nextPowerOfTwo (best.2.2 * 3)) []
      if isCopy then
        match n with
        | 0 => (.leaf addr value rules, m, none)
        | n + 1 =>
          let t := tryFill V path rules (.split addr value [] best.1 buckets none, m.next) n
          (t.1.1, { m with next := t.1.2 }, t.2)
      else
        match n with
        -- the node and its buckets
        | 0 => (.leaf addr value rules, m, none)
        | 1 => (.leaf addr value rules, m, none)
        | n + 2 =>
          let t := tryFill V path rules (.split m.next value [] best.1 buckets none, m.next + 1) n
          match t.2 with
          | some n => (t.1.1, { m with next := t.1.2 }, some n)
          | none => (.leaf addr value rules, { m with next := t.1.2 }.destroy t.1.1, none)

/-- The first part of `build`. -/
def Cnode.tryEnsureSplit (path : Nat) (isCopy : Bool) (m : Memory) (n : Nat) :
    Cnode → Cnode × Memory × Option Nat
  | .leaf a v rs =>
    if rs.length ≤ V.leafThreshold then (.leaf a v rs, m, some n)
    else trySplit V path isCopy a v rs m n
  | c => (c, m, some n)

/-- A loop over nodes that replaces each by its new version, until one throws. -/
def tryAll {α : Type} (build : α → Memory → Nat → Option (α × Memory × Option Nat)) :
    List α → Memory → Nat → Option (List α × Memory × Option Nat)
  | [], m, n => some ([], m, some n)
  | c :: l, m, n =>
    match build c m n with
    | none => none
    | some (c', m, none) => some (c' :: l, m, none)
    | some (c', m, some n) => (tryAll build l m n).map fun t => (c' :: t.1, t.2)

/-- The call of `build` for a child. -/
def tryReplaceChild (build : Cnode → Memory → Nat → Option (Cnode × Memory × Option Nat))
    (c : Cnode) (m : Memory) (n : Nat) : Option (Cnode × Memory × Option Nat) :=
  (build c m n).map fun t =>
    match t with
    | (c', m, none) => (c', m, none)
    | (c', m, some n) => (c', if c'.addr = c.addr then m else m.destroy c, some n)

/-- `build_children` -/
def tryBuildChildren (build : Cnode → Memory → Nat → Option (Cnode × Memory × Option Nat))
    (bs : List (List Cnode)) (any : Option Cnode) (m : Memory) (n : Nat) :
    Option (List (List Cnode) × Option Cnode × Memory × Option Nat) :=
  match tryAll (tryAll (tryReplaceChild build)) bs m n with
  | none => none
  | some (bs, m, none) => some (bs, any, m, none)
  | some (bs, m, some n) =>
    match any with
    | none => some (bs, none, m, some n)
    | some c => (tryReplaceChild build c m n).map fun t => (bs, some t.1, t.2)

/-- `build`; where it throws, the node that stays in its place. -/
def Cnode.tryBuild :
    Nat → Nat → Bool → Cnode → Memory → Nat → Option (Cnode × Memory × Option Nat)
  | 0, _, _, _, _, _ => none
  | fuel + 1, path, isCopy, c, m, n =>
    match c.tryEnsureSplit V path isCopy m n with
    | (c', m, none) => some (c', m, none)
    | (.leaf a v rs, m, some n) => some (.leaf a v rs, m, some n)
    | (.split a v rs f bs any, m, some n) =>
      let newIsCopy := isCopy || a != c.addr
      match tryBuildChildren (Cnode.tryBuild fuel (path ||| 2 ^ f) newIsCopy) bs any m n with
      | none => none
      | some (bs, any, m, n) =>
        let c' := Cnode.split a v rs f bs any
        match n with
        | some n => some (c', if newIsCopy && !isCopy then m.setNodePointers c' else m, some n)
        | none =>
          -- the head of a copy is deleted, and with it the copy
          if newIsCopy && !isCopy then some (c, m.destroy c', none) else some (c', m, none)

/-- `add_node_rules`: each list is copied, and the copy is merged. -/
def tryMerge : List (Nat × List Nat) → List Nat → Nat → List Nat × Option Nat
  | [], l, n => (l, some n)
  | node :: ns, l, n =>
    if n < node.2.length then (l, none)
    else
      tryMerge ns (l.merge node.2 fun x y => !decide (V.priority y < V.priority x))
        (n - node.2.length)

/-- `unbuild` -/
def Cnode.tryUnbuild (m : Memory) : Nat → Cnode → Cnode × Memory × Option Nat
  | n, .leaf a v rs => (.leaf a v rs, m, some n)
  | 0, .split a v rs f bs any => (.split a v rs f bs any, m, none)
  | n + 1, .split a v rs f bs any =>
    let t := tryMerge V (Cnode.split a v rs f bs any).nodes [] n
    let c := Cnode.leaf m.next v t.1
    let m := { m with next := m.next + 1 }
    match t.2 with
    | some n => (c, m.setNodePointers c, some n)
    | none => (.split a v rs f bs any, m.destroy c, none)

end Build

section Classifier

/-! ## The classifier -/

variable {Expr Data Action : Type} (I : Interface Expr Data)

namespace Classifier

/-- `add_rule`, and whether it throws. -/
def tryAddRule (s : Classifier Expr Action) (priority : Nat) (expr : Expr) (action : Action)
    (n : Nat) : Classifier Expr Action × Bool :=
  match getId (fun id => (s.rules id).isSome) s.idCounter with
  | (none, counter) => ({ s with idCounter := counter }, true)
  | (some id, counter) =>
    match n with
    -- the rule and its entry in the table
    | 0 => ({ s with idCounter := counter }, true)
    | 1 => ({ s with idCounter := counter }, true)
    | n + 2 =>
      let rules := Function.update s.rules id (some ⟨priority, expr, action⟩)
      let t := s.root.tryAddRule (I.view rules) id s.memory.next 0 n
      match t.2 with
      | some (addr, _) =>
        ({ rules := rules
           idCounter := counter
           root := t.1
           memory := ⟨s.memory.next + 1, Function.update s.memory.node id (some addr)⟩ }, false)
      | none =>
        ({ s with
            idCounter := counter
            root := t.1
            memory := { s.memory with next := s.memory.next + 1 } }, true)

/-- What `build` and `unbuild` do with what the root returns. -/
def rebuilt (s : Classifier Expr Action) :
    Cnode × Memory × Option Nat → Classifier Expr Action × Bool
  | (c, m, some _) => (s.reset (c, m), false)
  | (c, m, none) => ({ s with root := c, memory := m }, true)

/-- An operation for which `n` allocations succeed, and whether it throws.  The others are
taken to have memory enough. -/
def attempt (s : Classifier Expr Action) (n : Nat) :
    Label Expr Action Data → Option (Classifier Expr Action × Bool)
  | .addRule priority expr action => some (s.tryAddRule I priority expr action n)
  | .build =>
    (s.root.tryBuild (I.view s.rules) (s.root.size + I.numFields) 0 false s.memory n).map s.rebuilt
  | .unbuild => some (s.rebuilt (s.root.tryUnbuild (I.view s.rules) s.memory n))
  | l => (s.step I l).map (·, false)

/-- Operations one after another, each with the allocations that succeed for it. -/
def attempts (s : Classifier Expr Action) (ls : List (Label Expr Action Data × Nat)) :
    Option (Classifier Expr Action) :=
  ls.foldlM (fun s l => (s.attempt I l.2 l.1).map (·.1)) s

end Classifier

end Classifier

end Nox.Classify
