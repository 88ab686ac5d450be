import Nox.Classify.PacketClassifier
import Nox.Lib.Runs

/-!
# The rules that are run for a packet

The packet classifier runs the rules with the smallest priority of all, whatever the packet is
(`ignored_packet`).  When no action throws these are the right ones for a packet that satisfies
them all; when one throws, for a packet that satisfies those up to it and no others
(`handlePacketIn_iff`).  This holds of every call in a run in which no action blocks and
no packet finds in `result` what an action that threw has left there.
-/

namespace Nox.Classify

open Cnode

section Guarantee

/-! ## What is promised -/

variable {Action : Type} (s : Classifier PacketExpr Action) (h : PacketHeader)

/-- The packet satisfies the rule, and no rule with a smaller priority. -/
def Classifier.Chosen (id : Nat) : Prop :=
  ∃ rule, s.rules id = some rule ∧ rule.expr.satisfiedBy h = true ∧
    ∀ id' rule', s.rules id' = some rule' → rule'.expr.satisfiedBy h = true →
      rule.priority ≤ rule'.priority

/-- The actions of the chosen rules are run, each once, and no others. -/
def Classifier.RunsChosen (out : Option (List Nat)) : Prop :=
  ∃ ran, out = some ran ∧ ran.Nodup ∧ ∀ id, id ∈ ran ↔ s.Chosen h id

/-- No registered rule has a smaller priority. -/
def Classifier.Smallest (id : Nat) : Prop :=
  ∃ rule, s.rules id = some rule ∧
    ∀ id' rule', s.rules id' = some rule' → rule.priority ≤ rule'.priority

/-- The rules in the list up to the one whose action throws; all of them if none does. -/
def Classifier.upTo : Option Nat → List Nat
  | none => s.root.rules
  | some t => s.root.rules.takeWhile (· ≠ t) ++ [t]

/-- Of the rules of the smallest priority the packet satisfies those up to the one whose action
throws.  If none throws, the assertion in `matches` holds of the rule that comes behind them in
the list. -/
structure Classifier.Suited (thrower : Option Nat) : Prop where
  satisfied : ∀ id rule, s.Smallest id → s.rules id = some rule →
    (rule.expr.satisfiedBy h = true ↔ id ∈ s.upTo thrower)
  behind : thrower = none → ∀ top id rest, s.root.rules = top ++ id :: rest →
    (∀ r ∈ top, s.Smallest r) → ¬s.Smallest id → (s.checked id).isSome

/-- No action blocks, so that nothing else happens during a call, and an action that has thrown
has left no rules in `result`. -/
def PacketClassifier.Meets (p : PacketClassifier Action) (l : PacketLabel Action) : Prop :=
  p.aborted = false ∧
    match l with
    | .registration _ => p.calls = []
    | .packetIn _ => p.calls = [] ∧ p.result = some []
    | .returns i => i < p.calls.length
    | .throws i => i < p.calls.length

end Guarantee

section List

/-! ## One list of rules -/

variable {priority : Nat → Nat} {isMatch : Nat → Option Bool}

theorem nextChecked_nil : CnodeResult.nextChecked priority isMatch [] = some (none, []) := by
  rw [CnodeResult.nextChecked, CnodeResult.scanChecked_end priority isMatch none rfl]
  rfl

theorem nextChecked_push {r : Nat} {rs : List Nat} (h : isMatch r ≠ some false) :
    CnodeResult.nextChecked priority isMatch (CnodeResult.push (r :: rs) []) =
      (isMatch r).map fun _ => (some r, CnodeResult.push rs []) := by
  have hhead : (CnodeResult.push (r :: rs) [])[0]? = some ⟨r, rs, false⟩ := rfl
  have hall : (none : Option (Nat × Nat)).all (fun b => decide (priority r < priority b.1)) := rfl
  have hcheck : Cursor.check isMatch ⟨r, rs, false⟩ = isMatch r := rfl
  rw [CnodeResult.nextChecked, CnodeResult.scanChecked_elem priority isMatch none hhead,
    if_pos hall, hcheck]
  cases hr : isMatch r with
  | none => rfl
  | some b =>
    cases b with
    | false => exact absurd hr h
    | true =>
      dsimp only
      rw [CnodeResult.scanChecked_end priority isMatch _ rfl]
      cases rs <;> rfl

end List

section Leaf

/-! ## The tree is a leaf -/

variable {Action : Type} {undef : Nat → Option Nat} {s : Classifier PacketExpr Action}

/-- The tree has not been split. -/
structure Classifier.Whole (undef : Nat → Option Nat) (s : Classifier PacketExpr Action) :
    Prop where
  inv : Inv (noFlow undef) s
  leaf : s.root.isLeaf = true

theorem Classifier.Whole.exists_leaf (h : s.Whole undef) :
    ∃ a v, s.root = .leaf a v s.root.rules := by
  have hleaf := h.leaf
  cases hroot : s.root with
  | leaf a v rs => exact ⟨a, v, rfl⟩
  | split a v rs f bs any =>
    rw [hroot] at hleaf
    cases hleaf

theorem whole_start : (Classifier.start none : Classifier PacketExpr Action).Whole undef :=
  ⟨inv_start none, rfl⟩

theorem Classifier.Whole.step (h : s.Whole undef) (r : Registration Action) :
    ∃ s', s.step (noFlow undef) r.label = some s' ∧ s'.Whole undef := by
  obtain ⟨s', hs', hinv, -⟩ := h.inv.step r.label
  refine ⟨s', hs', hinv, ?_⟩
  obtain ⟨a, v, hroot⟩ := h.exists_leaf
  cases r with
  | register priority expr action =>
    cases hs'
    unfold Classifier.addRule
    split
    · exact h.leaf
    · rw [hroot]
      rfl
  | unregister id =>
    cases hs'
    unfold Classifier.deleteRule
    split
    · exact h.leaf
    · dsimp only
      split
      · exact h.leaf
      · rw [hroot]
        rfl

/-- The registered rules, in order, are put on the result. -/
theorem Classifier.Whole.getRulesOnto (h : s.Whole undef) (res : CnodeResult) :
    s.getRulesOnto undef res = CnodeResult.push s.root.rules res := by
  obtain ⟨a, v, hroot⟩ := h.exists_leaf
  have hpushed : s.root.pushed ((noFlow undef).values ()) = [] := by
    rw [hroot]
    rfl
  rw [Classifier.getRulesOnto, getRulesLoop, hpushed, List.reverse_nil, List.nil_append,
    getRulesLoop]

theorem Classifier.Whole.allRules (h : s.Whole undef) : s.root.allRules = s.root.rules := by
  obtain ⟨a, v, hroot⟩ := h.exists_leaf
  rw [allRules_eq, hroot]
  exact List.append_nil _

theorem Classifier.Whole.mem_rules (h : s.Whole undef) (id : Nat) :
    id ∈ s.root.rules ↔ (s.rules id).isSome := by
  rw [← h.inv.live, h.allRules]

theorem checked_ne_false (s : Classifier PacketExpr Action) {id : Nat}
    (hid : (s.rules id).isSome) : s.checked id ≠ some false := by
  obtain ⟨rule, hrule⟩ := Option.isSome_iff_exists.mp hid
  rw [Classifier.checked, hrule, Option.elim_some, PacketExpr.matchesFlow]
  split
  · simp
  · simp

theorem priorityOf_eq {id : Nat} {rule : Rule PacketExpr Action} (h : s.rules id = some rule) :
    s.priorityOf id = rule.priority := by
  rw [Classifier.priorityOf, h, Option.elim_some]

theorem Classifier.Whole.nodup (h : s.Whole undef) : s.root.rules.Nodup :=
  h.allRules ▸ h.inv.nodup

/-- The list is in order. -/
theorem Classifier.Whole.sorted (h : s.Whole undef) :
    s.root.rules.Pairwise fun x y => s.priorityOf x ≤ s.priorityOf y :=
  (ordered_iff.mp h.inv.ordered).1

/-- The rules of the smallest priority have that of the first in the list. -/
theorem Classifier.Whole.smallest_iff_priority (h : s.Whole undef) {r : Nat} {rest : List Nat}
    (hrules : s.root.rules = r :: rest) (id : Nat) :
    s.Smallest id ↔ id ∈ s.root.rules ∧ s.priorityOf id = s.priorityOf r := by
  have hle : ∀ x ∈ s.root.rules, s.priorityOf r ≤ s.priorityOf x := by
    have hsorted := h.sorted
    rw [hrules] at hsorted ⊢
    exact List.forall_mem_cons.mpr ⟨Nat.le_refl _, (List.pairwise_cons.mp hsorted).1⟩
  constructor
  · rintro ⟨rule, hrule, hleast⟩
    have hid : id ∈ s.root.rules := (h.mem_rules id).mpr (Option.isSome_of_eq_some hrule)
    have hr : r ∈ s.root.rules := hrules ▸ List.mem_cons_self
    obtain ⟨rule', hrule'⟩ := Option.isSome_iff_exists.mp ((h.mem_rules r).mp hr)
    have hge := hleast r rule' hrule'
    rw [← priorityOf_eq hrule, ← priorityOf_eq hrule'] at hge
    exact ⟨hid, Nat.le_antisymm hge (hle id hid)⟩
  · rintro ⟨hid, heq⟩
    obtain ⟨rule, hrule⟩ := Option.isSome_iff_exists.mp ((h.mem_rules id).mp hid)
    refine ⟨rule, hrule, fun id' rule' hrule' => ?_⟩
    rw [← priorityOf_eq hrule, ← priorityOf_eq hrule', heq]
    exact hle id' ((h.mem_rules id').mpr (Option.isSome_of_eq_some hrule'))

/-- A packet that satisfies a rule leaves the assertion alone. -/
theorem checked_of_satisfiedBy {id : Nat} {rule : Rule PacketExpr Action} {header : PacketHeader}
    (hrule : s.rules id = some rule) (h : rule.expr.satisfiedBy header = true) :
    (s.checked id).isSome := by
  rw [Classifier.checked, hrule, Option.elim_some, PacketExpr.matchesFlow]
  simp only [PacketExpr.satisfiedBy, Bool.and_eq_true] at h
  simp [h]

/-- Rules of the smallest priority are the chosen ones exactly when, of all the rules with this
priority, they are those that the packet satisfies. -/
theorem chosen_iff (header : PacketHeader) {ran : List Nat} (hne : ran ≠ [])
    (hsmallest : ∀ r ∈ ran, s.Smallest r) :
    (∀ id, id ∈ ran ↔ s.Chosen header id) ↔
      ∀ id rule, s.Smallest id → s.rules id = some rule →
        (rule.expr.satisfiedBy header = true ↔ id ∈ ran) := by
  constructor
  · rintro hmem id rule ⟨rule', hrule', hleast⟩ hrule
    cases hrule.symm.trans hrule'
    constructor
    · intro hsatisfied
      exact (hmem id).mpr
        ⟨rule, hrule, hsatisfied, fun id' rule' hrule' _ => hleast id' rule' hrule'⟩
    · intro hid
      obtain ⟨rule', hrule', hsatisfied, -⟩ := (hmem id).mp hid
      cases hrule.symm.trans hrule'
      exact hsatisfied
  · intro hsatisfied id
    obtain ⟨r, hr⟩ := List.exists_mem_of_ne_nil ran hne
    constructor
    · intro hid
      have hleast := hsmallest id hid
      obtain ⟨rule, hrule, hle⟩ := hleast
      exact ⟨rule, hrule, (hsatisfied id rule (hsmallest id hid) hrule).mpr hid,
        fun id' rule' hrule' _ => hle id' rule' hrule'⟩
    · rintro ⟨rule, hrule, hid, hleast⟩
      obtain ⟨rule', hrule', hleast'⟩ := hsmallest r hr
      have hr' : rule'.expr.satisfiedBy header = true :=
        (hsatisfied r rule' (hsmallest r hr) hrule').mpr hr
      have hle := hleast r rule' hrule' hr'
      exact (hsatisfied id rule ⟨rule, hrule, fun id'' rule'' hrule'' =>
        hle.trans (hleast' id'' rule'' hrule'')⟩ hrule).mp hid

end Leaf

section Ends

/-! ## The ends of a call -/

variable {Action : Type} {undef : Nat → Option Nat} {s : Classifier PacketExpr Action}

/-- The rules at the front of the list have one priority, and the assertion has held of them. -/
structure Front (s : Classifier PacketExpr Action) (topPriority : Nat) (front rest : List Nat) :
    Prop where
  rules : s.root.rules = front ++ rest
  priority : ∀ r ∈ front, s.priorityOf r = topPriority
  checked : ∀ r ∈ front, (s.checked r).isSome

variable {header : PacketHeader} {topPriority : Nat} {front rest : List Nat}

/-- The rules at the front have the smallest priority of all. -/
theorem Front.smallest_iff (hf : Front s topPriority front rest) (h : s.Whole undef)
    (hne : front ≠ []) (id : Nat) :
    s.Smallest id ↔ id ∈ s.root.rules ∧ s.priorityOf id = topPriority := by
  obtain ⟨r, front', rfl⟩ := List.exists_cons_of_ne_nil hne
  have hrules : s.root.rules = r :: (front' ++ rest) := hf.rules
  rw [h.smallest_iff_priority hrules, hf.priority r List.mem_cons_self]

theorem Front.smallest (hf : Front s topPriority front rest) (h : s.Whole undef) {id : Nat}
    (hid : id ∈ front) : s.Smallest id :=
  (hf.smallest_iff h (List.ne_nil_of_mem hid) id).mpr
    ⟨hf.rules ▸ List.mem_append_left _ hid, hf.priority id hid⟩

theorem Front.nodup (hf : Front s topPriority front rest) (h : s.Whole undef) : front.Nodup :=
  (List.nodup_append.mp (hf.rules ▸ h.nodup)).1

/-- When the next rule has another priority, the front is all of the smallest priority. -/
theorem Front.mem_iff (hf : Front s topPriority front rest) (h : s.Whole undef)
    (hne : front ≠ []) (hnext : ∀ x ∈ rest.head?, s.priorityOf x ≠ topPriority) (id : Nat) :
    id ∈ front ↔ s.Smallest id := by
  refine ⟨hf.smallest h, fun hid => ?_⟩
  obtain ⟨hmem, heq⟩ := (hf.smallest_iff h hne id).mp hid
  rw [hf.rules] at hmem
  refine (List.mem_append.mp hmem).resolve_right fun hrest => ?_
  obtain ⟨x, rest', rfl⟩ := List.exists_cons_of_ne_nil (List.ne_nil_of_mem hrest)
  have hx : s.priorityOf x ≠ topPriority := hnext x rfl
  have hsorted := h.sorted
  rw [hf.rules, List.pairwise_append, List.pairwise_cons] at hsorted
  obtain ⟨-, ⟨hrest', -⟩, hfront⟩ := hsorted
  obtain ⟨r, hr⟩ := List.exists_mem_of_ne_nil front hne
  have hrx := hfront r hr x List.mem_cons_self
  rw [hf.priority r hr] at hrx
  rcases List.mem_cons.mp hrest with rfl | hlater
  · exact hx heq
  · have hxid := hrest' id hlater
    omega

/-- The rule behind those of the smallest priority is the next one. -/
theorem Front.head?_eq (hf : Front s topPriority front rest) (h : s.Whole undef)
    (hne : front ≠ []) (hnext : ∀ x ∈ rest.head?, s.priorityOf x ≠ topPriority)
    {top behind : List Nat} {id : Nat} (heq : s.root.rules = top ++ id :: behind)
    (htop : ∀ r ∈ top, s.Smallest r) (hid : ¬s.Smallest id) : rest.head? = some id := by
  rw [hf.rules] at heq
  rcases List.append_eq_append_iff.mp heq with ⟨gap, rfl, hrest⟩ | ⟨gap, rfl, hrest⟩
  · cases gap with
    | nil => rw [hrest, List.nil_append, List.head?_cons]
    | cons x gap =>
      -- `x` would have the smallest priority, and the next rule has another one
      have hx := htop x (List.mem_append_right _ List.mem_cons_self)
      have hhead : rest.head? = some x := by rw [hrest, List.cons_append, List.head?_cons]
      exact absurd ((hf.smallest_iff h hne x).mp hx).2 (hnext x hhead)
  · cases gap with
    | nil =>
      rw [List.nil_append] at hrest
      rw [← hrest, List.head?_cons]
    | cons x gap =>
      rw [List.cons_append] at hrest
      cases hrest
      exact absurd (hf.smallest h (List.mem_append_right _ List.mem_cons_self)) hid

/-- When the packet is suited the assertion holds of the next rule. -/
theorem Classifier.Suited.checked (hs : s.Suited header none) (hf : Front s topPriority front rest)
    (h : s.Whole undef) {x : Nat} {rest' : List Nat} (hrest : rest = x :: rest') :
    (s.checked x).isSome := by
  have hrules := hf.rules
  rw [hrest] at hrules
  by_cases hx : s.Smallest x
  · obtain ⟨rule, hrule, -⟩ := id hx
    have hmem : x ∈ s.root.rules := hrules ▸ List.mem_append_right _ List.mem_cons_self
    exact checked_of_satisfiedBy hrule ((hs.satisfied x rule hx hrule).mpr hmem)
  · exact hs.behind rfl front x rest' hrules (fun r => hf.smallest h) hx

/-- The assertion fails of the next rule. -/
theorem Front.failed (hf : Front s topPriority front rest) (h : s.Whole undef) {x : Nat}
    {rest' : List Nat} (hrest : rest = x :: rest') (hx : s.checked x = none) :
    s.RunsChosen header none ↔ s.Suited header none := by
  refine iff_of_false ?_ fun hs => ?_
  · rintro ⟨ran, hran, -⟩
    cases hran
  · have hsome := hs.checked hf h hrest
    rw [hx] at hsome
    cases hsome

/-- The action of the last of the rules throws. -/
theorem Front.thrown {t : Nat} (hf : Front s topPriority (front ++ [t]) rest)
    (h : s.Whole undef) :
    s.RunsChosen header (some (front ++ [t])) ↔ s.Suited header (some t) := by
  have hnodup := hf.nodup h
  have hupTo : s.upTo (some t) = front ++ [t] := by
    have hfront : ∀ x ∈ front, x ≠ t := by
      rintro x hx rfl
      exact (List.disjoint_of_nodup_append hnodup) hx (List.mem_singleton_self x)
    rw [Classifier.upTo, hf.rules, List.append_assoc,
      List.takeWhile_append_of_pos (by simpa using hfront), List.singleton_append,
      List.takeWhile_cons_of_neg (by simp), List.append_nil]
  have hne : front ++ [t] ≠ [] := by simp
  have hchosen := chosen_iff header hne fun r => hf.smallest h
  constructor
  · rintro ⟨ran, hran, -, hmem⟩
    cases hran
    refine ⟨?_, fun hnone => ?_⟩
    · rw [hupTo]
      exact hchosen.mp hmem
    · cases hnone
  · intro hs
    have hsatisfied := hs.satisfied
    rw [hupTo] at hsatisfied
    exact ⟨front ++ [t], rfl, hnodup, hchosen.mpr hsatisfied⟩

/-- All actions have returned, and the next rule has another priority. -/
theorem Front.returned (hf : Front s topPriority front rest) (h : s.Whole undef)
    (hne : front ≠ []) (hnext : ∀ x ∈ rest.head?, s.priorityOf x ≠ topPriority)
    (hchecked : ∀ x ∈ rest.head?, (s.checked x).isSome) :
    s.RunsChosen header (some front) ↔ s.Suited header none := by
  have hchosen := chosen_iff header hne fun r => hf.smallest h
  have hmem := hf.mem_iff h hne hnext
  have hall : ∀ id, s.Smallest id → (id ∈ s.upTo none ↔ id ∈ front) := fun id hid =>
    iff_of_true ((hf.smallest_iff h hne id).mp hid).1 ((hmem id).mpr hid)
  constructor
  · rintro ⟨ran, hran, -, hran'⟩
    cases hran
    refine ⟨fun id rule hid hrule => ?_, fun _ top id behind heq htop hid => ?_⟩
    · rw [hall id hid]
      exact hchosen.mp hran' id rule hid hrule
    · exact hchecked id (hf.head?_eq h hne hnext heq htop hid)
  · intro hs
    refine ⟨front, rfl, hf.nodup h, hchosen.mpr fun id rule hid hrule => ?_⟩
    rw [← hall id hid]
    exact hs.satisfied id rule hid hrule

/-- No rules are registered. -/
theorem Classifier.Whole.none_registered (h : s.Whole undef) (hrules : s.root.rules = []) :
    s.RunsChosen header (some []) ↔ s.Suited header none := by
  have hnone : ∀ id rule, s.rules id ≠ some rule := by
    intro id rule hrule
    have hid := (h.mem_rules id).mpr (Option.isSome_of_eq_some hrule)
    rw [hrules] at hid
    cases hid
  refine iff_of_true ⟨[], rfl, List.nodup_nil, fun id => ?_⟩ ⟨fun id rule _ hrule => ?_, ?_⟩
  · refine iff_of_false List.not_mem_nil ?_
    rintro ⟨rule, hrule, -⟩
    exact hnone id rule hrule
  · exact absurd hrule (hnone id rule)
  · intro _ top id rest heq
    rw [hrules] at heq
    simp at heq

/-- The front of the list when a call comes to `next`: empty at first, when `top_priority` is
not set yet. -/
def Reached (s : Classifier PacketExpr Action) (topPriority : Option Nat)
    (returned rest : List Nat) : Prop :=
  match topPriority with
  | none => returned = [] ∧ s.root.rules = rest
  | some t => returned ≠ [] ∧ Front s t returned rest

variable {top : Option Nat} {returned : List Nat}

theorem Reached.exists_front (hr : Reached s top returned rest) :
    ∃ t, Front s t returned rest := by
  cases top with
  | none =>
    obtain ⟨rfl, hrules⟩ := hr
    exact ⟨0, hrules, List.forall_mem_nil _, List.forall_mem_nil _⟩
  | some t => exact ⟨t, hr.2⟩

/-- The next rule is run too. -/
theorem Reached.grow {x : Nat} (hr : Reached s top returned (x :: rest))
    (hchecked : (s.checked x).isSome) (htop : top.all (· == s.priorityOf x) = true) :
    Front s (s.priorityOf x) (returned ++ [x]) rest := by
  cases top with
  | none =>
    obtain ⟨rfl, hrules⟩ := hr
    exact ⟨hrules, by simp, by simpa using hchecked⟩
  | some t =>
    have hf := hr.2
    have ht : t = s.priorityOf x := by simpa using htop
    refine ⟨by simpa using hf.rules, fun r hr => ?_, fun r hr => ?_⟩
    · rcases List.mem_append.mp hr with hr | hr
      · rw [hf.priority r hr, ht]
      · rw [List.mem_singleton.mp hr]
    · rcases List.mem_append.mp hr with hr | hr
      · exact hf.checked r hr
      · rw [List.mem_singleton.mp hr]
        exact hchecked

/-- No rule is left, or the next one has another priority. -/
theorem Reached.over (hr : Reached s top returned rest) (h : s.Whole undef)
    (hnext : ∀ x ∈ rest.head?, top.all (· == s.priorityOf x) = false)
    (hchecked : ∀ x ∈ rest.head?, (s.checked x).isSome) :
    s.RunsChosen header (some returned) ↔ s.Suited header none := by
  cases top with
  | none =>
    obtain ⟨rfl, hrules⟩ := hr
    cases rest with
    | nil => exact h.none_registered hrules
    | cons x rest => cases hnext x rfl
  | some t =>
    refine hr.2.returned h hr.1 (fun x hx heq => ?_) hchecked
    have hne := hnext x hx
    rw [heq] at hne
    simp at hne

end Ends

section Runs

/-! ## Runs of the classifier -/

variable {Action : Type} {undef : Nat → Option Nat} {p p' : PacketClassifier Action}

/-- What is promised of a call that is over: its rules are the chosen ones exactly when the
packet is suited. -/
def PacketHandled.Right (e : PacketHandled Action) : Prop :=
  e.before.RunsChosen e.packet e.ran ↔ e.before.Suited e.packet e.thrower

/-- A call whose action is running: the rules that it has run are at the front of the list, and
the result has the others. -/
structure PacketCall.Running (c : PacketCall Action) (p : PacketClassifier Action)
    (rest : List Nat) : Prop where
  before : c.before = p.classifier
  result : p.result = some (CnodeResult.push rest [])
  front : Front p.classifier c.topPriority (c.returned ++ [c.running]) rest

/-- There is one call at a time. -/
structure PacketClassifier.Inv (undef : Nat → Option Nat) (p : PacketClassifier Action) :
    Prop where
  whole : p.classifier.Whole undef
  calls : ∀ c cs, p.calls = c :: cs → cs = [] ∧ ∃ rest, c.Running p rest
  handled : ∀ e ∈ p.handled, e.Right

theorem PacketClassifier.inv_start : (start : PacketClassifier Action).Inv undef where
  whole := whole_start
  calls := by
    intro c cs hcalls
    cases hcalls
  handled := List.forall_mem_nil _

/-- A call is over, right in what it has run, and no call is left. -/
theorem PacketClassifier.Inv.over (h : p.Inv undef) {q : PacketClassifier Action}
    {e : PacketHandled Action} (he : e.Right) (hclassifier : q.classifier = p.classifier)
    (hcalls : q.calls = []) (hhandled : q.handled = e :: p.handled) : q.Inv undef where
  whole := hclassifier ▸ h.whole
  calls := by
    intro c cs heq
    rw [hcalls] at heq
    cases heq
  handled := by
    rw [hhandled]
    exact List.forall_mem_cons.mpr ⟨he, h.handled⟩

/-- What `next` comes to in a call, from the rules that are left. -/
theorem PacketClassifier.Inv.goOn (h : p.Inv undef) (hcalls : p.calls = [])
    (header : PacketHeader) {top : Option Nat} {returned rest : List Nat}
    (hr : Reached p.classifier top returned rest) :
    (p.goOn p.classifier header top returned (CnodeResult.push rest [])).Inv undef := by
  unfold PacketClassifier.goOn
  cases rest with
  | nil =>
    have he : PacketHandled.Right ⟨p.classifier, header, none, some returned⟩ :=
      hr.over h.whole (by simp) (by simp)
    rw [show CnodeResult.push [] [] = [] from rfl, nextChecked_nil]
    exact h.over he rfl hcalls rfl
  | cons x rest =>
    have hx : (p.classifier.rules x).isSome := by
      obtain ⟨t, hf⟩ := hr.exists_front
      refine (h.whole.mem_rules x).mp ?_
      rw [hf.rules]
      exact List.mem_append_right _ List.mem_cons_self
    rw [nextChecked_push (checked_ne_false p.classifier hx)]
    cases hchecked : p.classifier.checked x with
    | none =>
      obtain ⟨t, hf⟩ := hr.exists_front
      have he : PacketHandled.Right ⟨p.classifier, header, none, none⟩ :=
        hf.failed h.whole rfl hchecked
      exact h.over he rfl hcalls rfl
    | some b =>
      have hsome := Option.isSome_of_eq_some hchecked
      rw [Option.map_some]
      dsimp only
      split
      · next htop =>
        refine ⟨h.whole, fun c cs heq => ?_, h.handled⟩
        obtain ⟨rfl, rfl⟩ := List.cons.inj heq
        exact ⟨hcalls, rest, rfl, rfl, hr.grow hsome htop⟩
      · next htop =>
        have he : PacketHandled.Right ⟨p.classifier, header, none, some returned⟩ :=
          hr.over h.whole (by simpa using htop) (by simpa using hsome)
        exact h.over he rfl hcalls rfl

theorem PacketClassifier.Inv.register (h : p.Inv undef) (hcalls : p.calls = [])
    (r : Registration Action) : ∃ p', p.register undef r = some p' ∧ p'.Inv undef := by
  obtain ⟨s, hs, hwhole⟩ := h.whole.step r
  rw [PacketClassifier.register, hs, Option.map_some]
  refine ⟨_, rfl, hwhole, fun c cs heq => ?_, h.handled⟩
  cases hcalls.symm.trans heq

theorem PacketClassifier.Inv.handlePacketIn (h : p.Inv undef) (hcalls : p.calls = [])
    (header : PacketHeader) : (p.handlePacketIn undef header []).Inv undef := by
  rw [PacketClassifier.handlePacketIn, h.whole.getRulesOnto]
  exact h.goOn hcalls header ⟨rfl, rfl⟩

/-- The call that is running. -/
theorem PacketClassifier.Inv.call (h : p.Inv undef) {i : Nat} (hi : i < p.calls.length) :
    i = 0 ∧ ∃ c rest, p.calls = [c] ∧ c.Running p rest := by
  obtain ⟨c, cs, hcalls⟩ := List.exists_cons_of_length_pos (by omega : 0 < p.calls.length)
  obtain ⟨rfl, rest, hc⟩ := h.calls c cs hcalls
  rw [hcalls, List.length_singleton] at hi
  exact ⟨by omega, c, rest, hcalls, hc⟩

theorem PacketClassifier.Inv.actionReturns (h : p.Inv undef) {c : PacketCall Action}
    {rest : List Nat} (hcalls : p.calls = [c]) (hc : c.Running p rest) :
    (p.actionReturns 0 c (CnodeResult.push rest [])).Inv undef := by
  rw [PacketClassifier.actionReturns, hcalls, List.eraseIdx_cons_zero, hc.before]
  have hidle : ({ p with calls := [] } : PacketClassifier Action).Inv undef :=
    ⟨h.whole, by simp, h.handled⟩
  exact hidle.goOn rfl c.packet ⟨by simp, hc.front⟩

theorem PacketClassifier.Inv.actionThrows (h : p.Inv undef) {c : PacketCall Action}
    {rest : List Nat} (hcalls : p.calls = [c]) (hc : c.Running p rest) :
    (p.actionThrows 0 c).Inv undef := by
  have he : PacketHandled.Right
      ⟨c.before, c.packet, some c.running, some (c.returned ++ [c.running])⟩ := by
    rw [hc.before]
    exact hc.front.thrown h.whole
  refine h.over he rfl ?_ rfl
  rw [PacketClassifier.actionThrows, hcalls, List.eraseIdx_cons_zero]

/-- A step that meets the condition can be taken, and keeps the invariant. -/
theorem PacketClassifier.Inv.step (h : p.Inv undef) {l : PacketLabel Action} (hl : p.Meets l) :
    ∃ p', p.step undef l = some p' ∧ p'.Inv undef := by
  obtain ⟨haborted, hl⟩ := hl
  unfold PacketClassifier.step
  rw [haborted, if_neg Bool.false_ne_true]
  cases l with
  | registration r => exact h.register hl r
  | packetIn header =>
    obtain ⟨hcalls, hresult⟩ := hl
    dsimp only
    exact ⟨_, by rw [hresult, Option.map_some], h.handlePacketIn hcalls header⟩
  | returns i =>
    obtain ⟨rfl, c, rest, hcalls, hc⟩ := h.call hl
    refine ⟨_, ?_, h.actionReturns hcalls hc⟩
    dsimp only
    rw [hcalls, List.getElem?_cons_zero, Option.bind_some, hc.result, Option.map_some]
  | throws i =>
    obtain ⟨rfl, c, rest, hcalls, hc⟩ := h.call hl
    dsimp only
    exact ⟨_, by rw [hcalls, List.getElem?_cons_zero, Option.map_some], h.actionThrows hcalls hc⟩

/-- In every run in which no action blocks and no packet finds what an action that threw has
left, the steps can be taken, and a call runs the chosen rules exactly when the packet is
suited. -/
theorem handlePacketIn_iff (undef : Nat → Option Nat) {p : PacketClassifier Action}
    (h : Lib.Reaches (PacketClassifier.step undef) PacketClassifier.Meets .start p) :
    (∀ l, p.Meets l → ∃ p', p.step undef l = some p') ∧
      ∀ e ∈ p.handled, e.before.RunsChosen e.packet e.ran ↔
        e.before.Suited e.packet e.thrower := by
  have hinv : p.Inv undef := by
    refine h.invariant PacketClassifier.inv_start fun q l q' hq hmeets hs => ?_
    obtain ⟨q'', hs', hq''⟩ := hq.step hmeets
    cases hs.symm.trans hs'
    exact hq''
  refine ⟨fun l hl => ?_, fun e he => hinv.handled e he⟩
  obtain ⟨p', hp', -⟩ := hinv.step hl
  exact ⟨p', hp'⟩

instance PacketClassifier.decidableMeets (p : PacketClassifier Action)
    (l : PacketLabel Action) : Decidable (p.Meets l) :=
  match l with
  | .registration _ => inferInstanceAs (Decidable (_ ∧ _))
  | .packetIn _ => inferInstanceAs (Decidable (_ ∧ _ ∧ _))
  | .returns _ => inferInstanceAs (Decidable (_ ∧ _))
  | .throws _ => inferInstanceAs (Decidable (_ ∧ _))

/-- The steps of a run that meets the condition. -/
def PacketClassifier.runs (ls : List (PacketLabel Action)) : Option (PacketClassifier Action) :=
  Lib.runs (PacketClassifier.step fun _ => none) PacketClassifier.Meets .start ls

/-- A packet of the internet protocol. -/
def ipPacket : PacketHeader where
  inPort := 1
  dlVlan := 65535
  dlVlanPcp := 0
  dlType := 2048
  dlSrc := [2, 0, 0, 0, 0, 1]
  dlDst := [2, 0, 0, 0, 0, 2]
  nwSrc := 167772161
  nwDst := 167772162
  nwProto := 6
  tpSrc := 49152
  tpDst := 80

/-- Two rules for the packet, with one for ARP behind them. -/
def threeRules : List (PacketLabel Unit) :=
  [.registration (.register 200 (.ofDlType 2048) ()),
    .registration (.register 300 (.ofDlType 2054) ()),
    .registration (.register 200 (.ofDlType 2048) ())]

/-- Both actions return for the first packet; one rule is removed, and the action of the other
throws for the second. -/
theorem handlePacketIn_twice :
    ∃ p, PacketClassifier.runs (threeRules ++ [.packetIn ipPacket, .returns 0, .returns 0,
        .registration (.unregister 3), .packetIn ipPacket, .throws 0]) = some p ∧
      p.handled.map (fun e => (e.thrower, e.ran)) = [(some 1, some [1]), (none, some [3, 1])] ∧
      ∀ e ∈ p.handled, e.before.RunsChosen e.packet e.ran ↔
        e.before.Suited e.packet e.thrower := by
  have hrun : (PacketClassifier.runs (threeRules ++ [.packetIn ipPacket, .returns 0, .returns 0,
      .registration (.unregister 3), .packetIn ipPacket, .throws 0])).map (fun p =>
        p.handled.map fun e => (e.thrower, e.ran)) =
      some [(some 1, some [1]), (none, some [3, 1])] := by
    decide +kernel
  obtain ⟨p, hp, heq⟩ := Option.map_eq_some_iff.mp hrun
  exact ⟨p, hp, heq, (handlePacketIn_iff _ (Lib.Reaches.init.runs hp)).2⟩

-- what the throwing action of rule 3 leaves in the result is run for the next packet
example : (List.foldlM (PacketClassifier.step fun _ => none) PacketClassifier.start
    (threeRules ++ [.packetIn ipPacket, .throws 0, .packetIn ipPacket, .returns 0, .returns 0,
      .returns 0])).map (fun p => p.handled.map PacketHandled.ran) =
      some [some [1, 3, 1], some [3]] := by
  decide +kernel

/-- The action of a rule for ARP is run for a packet of the internet protocol. -/
theorem ignored_packet :
    ∃ p, PacketClassifier.runs [.registration (.register 100 (.ofDlType 2054) ()),
        .packetIn ipPacket, .returns 0] = some p ∧
      ∃ e ∈ p.handled, ¬e.before.RunsChosen e.packet e.ran := by
  have hrun : (PacketClassifier.runs [.registration (.register 100 (.ofDlType 2054) ()),
      .packetIn ipPacket, .returns 0]).map (fun p => p.handled.map fun e =>
        (e.ran, (e.before.rules 1).map fun rule => rule.expr.satisfiedBy e.packet)) =
      some [(some [1], some false)] := by
    decide +kernel
  obtain ⟨p, hp, heq⟩ := Option.map_eq_some_iff.mp hrun
  obtain ⟨e, hhandled, he⟩ := List.map_eq_singleton_iff.mp heq
  obtain ⟨hran, hrule⟩ := Prod.mk.inj he
  refine ⟨p, hp, e, hhandled ▸ List.mem_singleton_self e, ?_⟩
  rintro ⟨ran, hout, -, hmem⟩
  cases hran.symm.trans hout
  obtain ⟨rule, hrule', hsatisfied, -⟩ := (hmem 1).mp List.mem_cons_self
  rw [hrule', Option.map_some, hsatisfied] at hrule
  cases hrule

end Runs

end Nox.Classify
