import Nox.Classify.Traverse
import Nox.Classify.Upkeep

/-!
# The classifier

A `Classifier` owns its rules, in a table by id, and a tree of nodes that point at
them.  It is generic in the expressions of the rules and in the data that are
looked up; `Interface` is what it asks of them.
-/

namespace Nox.Classify

section Interface

/-! ## Expressions and data -/

/-- What `Expr` and the functions declared beside it have to provide.  `values` are
what `get_field` returns for the data with the indices 0, 1, … until it returns
false. -/
structure Interface (Expr Data : Type) where
  numFields : Nat
  leafThreshold : Nat
  splittable : Expr → Nat → Bool
  getField : Expr → Nat → Option Nat
  values : Data → Nat → List Nat
  nodup : ∀ d f, (values d f).Nodup
  isMatch : Nat → Expr → Data → Bool

/-- `Rule`, without the id it is found under and the pointer to its node. -/
structure Rule (Expr Action : Type) where
  priority : Nat
  expr : Expr
  action : Action

variable {Expr Data Action : Type} (I : Interface Expr Data)

/-- What the pointers to rules lead to. -/
def Interface.view (rules : Nat → Option (Rule Expr Action)) : View where
  numFields := I.numFields
  leafThreshold := I.leafThreshold
  priority := fun r => (rules r).elim 0 fun rule => rule.priority
  getField := fun r f => (rules r).bind fun rule => I.getField rule.expr f
  splittable := fun r path => (rules r).any fun rule => I.splittable rule.expr path

/-- `matches` of the rule under a cursor. -/
def Interface.found (rules : Nat → Option (Rule Expr Action)) (d : Data) (r : Nat) : Bool :=
  (rules r).any fun rule => I.isMatch r rule.expr d

end Interface

section Ids

/-! ## Ids -/

/-- The loop of `get_id`, with the counter it ends at.  The fuel is for two rounds
of all ids. -/
def getIdLoop (used : Nat → Bool) : Nat → Bool → Nat → Option Nat × Nat
  | 0, _, counter => (none, counter)
  | fuel + 1, loop, counter =>
    if used counter then
      if counter = 2 ^ 32 - 1 then
        if loop then (none, counter) else getIdLoop used fuel true 1
      else getIdLoop used fuel loop (counter + 1)
    else (some counter, counter)

/-- `get_id` -/
def getId (used : Nat → Bool) (counter : Nat) : Option Nat × Nat :=
  match getIdLoop used (2 ^ 33) false counter with
  | (none, counter) => (none, counter)
  | (some id, counter) => (some id, if counter = 2 ^ 32 - 1 then 1 else counter)

theorem getIdLoop_unused {used : Nat → Bool} {fuel : Nat} {loop : Bool} {counter id c : Nat}
    (h : getIdLoop used fuel loop counter = (some id, c)) : used id = false := by
  induction fuel generalizing loop counter with
  | zero => cases h
  | succ fuel ih =>
    rw [getIdLoop] at h
    split at h
    · split at h
      · split at h
        · cases h
        · exact ih h
      · exact ih h
    · next hused =>
      cases h
      simpa using hused

theorem getId_unused {used : Nat → Bool} {counter id : Nat}
    (h : (getId used counter).1 = some id) : used id = false := by
  unfold getId at h
  split at h
  · cases h
  · next hloop =>
    cases h
    exact getIdLoop_unused hloop

/-- With the ids from `first` to the counter in use, the loop gives up only when all
ids are. -/
theorem getIdLoop_all_used {used : Nat → Bool} {fuel : Nat} {loop : Bool} {counter c : Nat}
    (hpos : 1 ≤ counter) (hlt : counter < 2 ^ 32)
    (hfuel : (if loop then 0 else 2 ^ 32) + (2 ^ 32 - counter) ≤ fuel)
    (hseen : loop = true → ∀ id, 1 ≤ id → id < counter → used id = true)
    (h : getIdLoop used fuel loop counter = (none, c)) :
    ∀ id, 1 ≤ id → id < 2 ^ 32 → used id = true := by
  induction fuel generalizing loop counter with
  | zero => omega
  | succ fuel ih =>
    rw [getIdLoop] at h
    split at h
    · next hused =>
      split at h
      · next hlast =>
        cases loop with
        | true =>
          intro id h1 h2
          by_cases hid : id = counter
          · rw [hid]
            exact hused
          · exact hseen rfl id h1 (by omega)
        | false =>
          refine ih (Nat.le_refl 1) (by omega) ?_ (fun _ id h1 h2 => absurd h2 (by omega)) h
          simp only [Bool.false_eq_true, if_false] at hfuel
          simp only [if_true]
          omega
      · refine ih (by omega) (by omega) (by omega) (fun hl id h1 h2 => ?_) h
        by_cases hid : id = counter
        · rw [hid]
          exact hused
        · exact hseen hl id h1 (by omega)
    · cases h

/-- `get_id` finds an id unless all are in use. -/
theorem getId_isSome {used : Nat → Bool} {counter id : Nat} (hpos : 1 ≤ counter)
    (hlt : counter < 2 ^ 32) (h1 : 1 ≤ id) (h2 : id < 2 ^ 32) (hid : used id = false) :
    (getId used counter).1.isSome := by
  unfold getId
  split
  · next c hloop =>
    have hfuel : (if false = true then 0 else 2 ^ 32) + (2 ^ 32 - counter) ≤ 2 ^ 33 := by
      rw [if_neg (by simp)]
      omega
    have hall := getIdLoop_all_used hpos hlt hfuel (fun hl => (nomatch hl)) hloop id h1 h2
    rw [hid] at hall
    cases hall
  · rfl

theorem getIdLoop_range {used : Nat → Bool} {fuel : Nat} {loop : Bool} {counter : Nat}
    (hpos : 1 ≤ counter) (hlt : counter < 2 ^ 32) :
    1 ≤ (getIdLoop used fuel loop counter).2 ∧ (getIdLoop used fuel loop counter).2 < 2 ^ 32 := by
  induction fuel generalizing loop counter with
  | zero => exact ⟨hpos, hlt⟩
  | succ fuel ih =>
    rw [getIdLoop]
    split
    · split
      · split
        · exact ⟨hpos, hlt⟩
        · exact ih (Nat.le_refl 1) (by omega)
      · exact ih (by omega) (by omega)
    · exact ⟨hpos, hlt⟩

theorem getId_range {used : Nat → Bool} {counter : Nat} (hpos : 1 ≤ counter)
    (hlt : counter < 2 ^ 32) :
    1 ≤ (getId used counter).2 ∧ (getId used counter).2 < 2 ^ 32 := by
  have hrange : 1 ≤ (getIdLoop used (2 ^ 33) false counter).2 ∧
      (getIdLoop used (2 ^ 33) false counter).2 < 2 ^ 32 := getIdLoop_range hpos hlt
  unfold getId
  split
  · next hloop =>
    rw [hloop] at hrange
    exact hrange
  · next hloop =>
    rw [hloop] at hrange
    dsimp only
    split
    · omega
    · exact hrange

end Ids

section State

/-! ## The state and its operations -/

structure Classifier (Expr Action : Type) where
  rules : Nat → Option (Rule Expr Action)
  idCounter : Nat
  root : Cnode
  memory : Memory

variable {Expr Data Action : Type} (I : Interface Expr Data)

namespace Classifier

/-- `Classifier()` and `Classifier(split_field, n_buckets)`, with `n_buckets` given by
its logarithm. -/
def start (forced : Option (Nat × Nat)) : Classifier Expr Action where
  rules := fun _ => none
  idCounter := 1
  root :=
    match forced with
    | none => .leaf 0 0 []
    | some (splitField, log) => .split 0 0 [] splitField (List.replicate (2 ^ log) []) none
  memory := ⟨1, fun _ => none⟩

/-- `add_rule`: the id, or nothing when `get_id` throws. -/
def addRule (s : Classifier Expr Action) (priority : Nat) (expr : Expr) (action : Action) :
    Option Nat × Classifier Expr Action :=
  match getId (fun id => (s.rules id).isSome) s.idCounter with
  | (none, counter) => (none, { s with idCounter := counter })
  | (some id, counter) =>
    let rules := Function.update s.rules id (some ⟨priority, expr, action⟩)
    let t := s.root.addRule (I.view rules) id s.memory.next 0
    (some id, {
      rules := rules
      idCounter := counter
      root := t.1
      memory := ⟨s.memory.next + 1, Function.update s.memory.node id (some t.2)⟩ })

/-- `change_rule_priority` -/
def changeRulePriority (s : Classifier Expr Action) (id priority : Nat) :
    Bool × Classifier Expr Action :=
  match s.rules id, s.memory.node id with
  | some rule, some addr =>
    if s.root.nodes.any fun n => n.1 == addr && n.2.contains id then
      let rules := Function.update s.rules id (some { rule with priority := priority })
      (true, { s with
        rules := rules
        root := s.root.atAddr addr fun rs => addRuleToList (I.view rules) id (rs.erase id) })
    else (false, s)
  | _, _ => (false, s)

/-- `delete_rule` -/
def deleteRule (s : Classifier Expr Action) (id : Nat) : Bool × Classifier Expr Action :=
  match s.rules id with
  | none => (false, s)
  | some _ =>
    let root :=
      match s.memory.node id with
      | none => s.root
      | some addr => s.root.atAddr addr fun rs => rs.erase id
    (true, { s with
      rules := Function.update s.rules id none
      root := root
      memory := { s.memory with node := Function.update s.memory.node id none } })

/-- `get_rules` -/
def getRules (s : Classifier Expr Action) (d : Data) : CnodeResult :=
  Nox.Classify.getRules (I.values d) (I.nodup d) s.root

/-- `next` of a result for `d`. -/
def next (s : Classifier Expr Action) (d : Data) (res : CnodeResult) : Option Nat × CnodeResult :=
  res.next (I.view s.rules).priority (I.found s.rules d)

/-- The loop of `delete_rules`. -/
def deleteLoop (d : Data) (s : Classifier Expr Action) (nDel : Nat) (res : CnodeResult) :
    Nat × Classifier Expr Action :=
  match _h : s.next I d res with
  | (none, _) => (nDel, s)
  | (some r, res') =>
    let t := s.deleteRule r
    deleteLoop d t.2 (if t.1 then nDel + 1 else nDel) res'
termination_by res.pending.length
decreasing_by exact CnodeResult.next_length_lt _ _ ‹_›

/-- `delete_rules` -/
def deleteRules (s : Classifier Expr Action) (d : Data) : Nat × Classifier Expr Action :=
  deleteLoop I d s 0 (s.getRules I d)

/-- The root is replaced, and the old one deleted. -/
def reset (s : Classifier Expr Action) (t : Cnode × Memory) : Classifier Expr Action :=
  { s with
    root := t.1
    memory := if t.1.addr = s.root.addr then t.2 else t.2.destroy s.root }

/-- `build` -/
def build (s : Classifier Expr Action) : Option (Classifier Expr Action) :=
  (s.root.build (I.view s.rules) (s.root.size + I.numFields) 0 false s.memory).map s.reset

/-- `unbuild` -/
def unbuild (s : Classifier Expr Action) : Classifier Expr Action :=
  s.reset (s.root.unbuild (I.view s.rules) s.memory)

/-- `clean` -/
def clean (s : Classifier Expr Action) : Classifier Expr Action :=
  { s with root := s.root.clean.2 }

end Classifier

/-- The operations. -/
inductive Label (Expr Action Data : Type)
  | addRule (priority : Nat) (expr : Expr) (action : Action)
  | changeRulePriority (id priority : Nat)
  | deleteRule (id : Nat)
  | deleteRules (d : Data)
  | build
  | unbuild
  | clean

def Classifier.step (s : Classifier Expr Action) :
    Label Expr Action Data → Option (Classifier Expr Action)
  | .addRule priority expr action => some (s.addRule I priority expr action).2
  | .changeRulePriority id priority => some (s.changeRulePriority I id priority).2
  | .deleteRule id => some (s.deleteRule id).2
  | .deleteRules d => some (s.deleteRules I d).2
  | .build => s.build I
  | .unbuild => some (s.unbuild I)
  | .clean => some s.clean

def Classifier.run (s : Classifier Expr Action) (ls : List (Label Expr Action Data)) :
    Option (Classifier Expr Action) :=
  ls.foldlM (Classifier.step I) s

end State

end Nox.Classify
