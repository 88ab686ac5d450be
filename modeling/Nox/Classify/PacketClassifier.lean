import Nox.Classify.Expr

/-!
# The packet classifier

`register_handler_on_match` adds a rule to the classifier of packet expressions, and
`handle_packet_in` should run the actions of those with the smallest priority among the rules
that a packet satisfies.  But the packet is not looked at: the line that makes a flow of it is
commented out, as are `get_field` and `matches` for flows.  The rules are kept in `result`, a
member of the classifier that a call clears when all actions have returned: what a throwing
action leaves in it is run for the next packet, and while an action blocks, other calls use it
too.  So a call of the handler is made of steps here, one for each action that returns or
throws.
-/

namespace Nox.Classify

open Cnode

section Packets

/-! ## Packets -/

/-- The fields of a received packet that expressions tell about. -/
structure PacketHeader where
  inPort : Nat
  dlVlan : Nat
  dlVlanPcp : Nat
  dlType : Nat
  dlSrc : Bytes
  dlDst : Bytes
  nwSrc : Nat
  nwDst : Nat
  nwProto : Nat
  tpSrc : Nat
  tpDst : Nat

/-- The packet satisfies the expression: it has the values of the fields that the expression
defines.  A packet that is received has no destination port and no groups. -/
def PacketExpr.satisfiedBy (e : PacketExpr) (h : PacketHeader) : Bool :=
  (e.wildcards.testBit 0 || e.apSrc == h.inPort) &&
  e.wildcards.testBit 1 &&
  (e.wildcards.testBit 2 || e.dlVlan == h.dlVlan) &&
  (e.wildcards.testBit 3 || e.dlVlanPcp == h.dlVlanPcp) &&
  (e.wildcards.testBit 4 || e.dlProto == h.dlType) &&
  (e.wildcards.testBit 5 || e.dlSrc == h.dlSrc) &&
  (e.wildcards.testBit 6 || e.dlDst == h.dlDst) &&
  (e.wildcards.testBit 7 || e.nwSrc == h.nwSrc) &&
  (e.wildcards.testBit 8 || e.nwDst == h.nwDst) &&
  (e.wildcards.testBit 9 || e.nwProto == h.nwProto) &&
  (e.wildcards.testBit 10 || e.tpSrc == h.tpSrc) &&
  (e.wildcards.testBit 11 || e.tpDst == h.tpDst) &&
  e.wildcards.testBit 12 && e.wildcards.testBit 13

end Packets

section Next

/-! ## The next rule -/

/-- `matches` with a flow; nothing when its assertion fails. -/
def PacketExpr.matchesFlow (e : PacketExpr) : Option Bool :=
  if e.wildcards.testBit 1 && e.wildcards.testBit 12 && e.wildcards.testBit 13 then some true
  else none

/-- `current.ismatch || matches(...)` -/
def Cursor.check (isMatch : Nat → Option Bool) (c : Cursor) : Option Bool :=
  if c.ismatch then some true else isMatch c.head

theorem Cursor.check_eq_some {isMatch : Nat → Option Bool} {c : Cursor} {b : Bool}
    (h : c.check isMatch = some b) : (c.ismatch || isMatch c.head == some true) = b := by
  unfold check at h
  split at h
  · next hc =>
    cases h
    rw [hc, Bool.true_or]
  · next hc => cases b <;> simp [hc, h]

namespace CnodeResult

variable (priority : Nat → Nat) (isMatch : Nat → Option Bool)

/-- The loop of `next` where `matches` may fail. -/
def scanChecked (res : CnodeResult) (i : Nat) (best : Option (Nat × Nat)) :
    Option (CnodeResult × Option (Nat × Nat)) :=
  match hc : res[i]? with
  | none => some (res, best)
  | some c =>
    if best.all fun b => decide (priority c.head < priority b.1) then
      match c.check isMatch with
      | none => none
      | some true => scanChecked (res.set i { c with ismatch := true }) (i + 1) (some (c.head, i))
      | some false => scanChecked (res.advance i c) i best
    else scanChecked res (i + 1) best
termination_by res.pending.length + (res.length - i)
decreasing_by
  · have hi := (List.getElem?_eq_some_iff.mp hc).1
    rw [(pending_set hc true).length_eq, List.length_set]
    omega
  · have hlen := advance_length_le hc
    have hpending := (pending_advance hc).length_eq
    rw [List.length_cons] at hpending
    omega
  · have hi := (List.getElem?_eq_some_iff.mp hc).1
    omega

theorem scanChecked_end {res : CnodeResult} {i : Nat} (best : Option (Nat × Nat))
    (hc : res[i]? = none) : res.scanChecked priority isMatch i best = some (res, best) := by
  rw [scanChecked]
  split
  · rfl
  · next hc' => exact absurd (hc.symm.trans hc') (by simp)

theorem scanChecked_elem {res : CnodeResult} {i : Nat} {c : Cursor} (best : Option (Nat × Nat))
    (hc : res[i]? = some c) : res.scanChecked priority isMatch i best =
      if best.all fun b => decide (priority c.head < priority b.1) then
        match c.check isMatch with
        | none => none
        | some true =>
          CnodeResult.scanChecked priority isMatch (res.set i { c with ismatch := true }) (i + 1)
            (some (c.head, i))
        | some false => (res.advance i c).scanChecked priority isMatch i best
      else res.scanChecked priority isMatch (i + 1) best := by
  rw [scanChecked]
  split
  · next hc' => exact absurd (hc.symm.trans hc') (by simp)
  · next c' hc' =>
    cases hc.symm.trans hc'
    rfl

/-- While no assertion fails it is the loop of `next`. -/
theorem scan_of_scanChecked {res : CnodeResult} {i : Nat} {best : Option (Nat × Nat)}
    {out : CnodeResult × Option (Nat × Nat)}
    (h : res.scanChecked priority isMatch i best = some out) :
    res.scan priority (fun r => isMatch r == some true) i best = out := by
  induction res, i, best using scanChecked.induct priority isMatch with
  | case1 res i best hc =>
    rw [scanChecked_end priority isMatch best hc] at h
    rw [scan_end priority _ best hc]
    exact Option.some.inj h
  | case2 res i best c hc hbest hmatch =>
    rw [scanChecked_elem priority isMatch best hc, if_pos hbest, hmatch] at h
    cases h
  | case3 res i best c hc hbest hmatch ih =>
    rw [scanChecked_elem priority isMatch best hc, if_pos hbest, hmatch] at h
    rw [scan_elem priority _ best hc, if_pos hbest, if_pos (Cursor.check_eq_some hmatch)]
    exact ih h
  | case4 res i best c hc hbest hmatch ih =>
    rw [scanChecked_elem priority isMatch best hc, if_pos hbest, hmatch] at h
    have hfound := ne_true_of_eq_false (Cursor.check_eq_some hmatch)
    rw [scan_elem priority _ best hc, if_pos hbest, if_neg hfound]
    exact ih h
  | case5 res i best c hc hbest ih =>
    rw [scanChecked_elem priority isMatch best hc, if_neg hbest] at h
    rw [scan_elem priority _ best hc, if_neg hbest]
    exact ih h

/-- `next`, where `matches` may fail. -/
def nextChecked (res : CnodeResult) : Option (Option Nat × CnodeResult) :=
  (res.scanChecked priority isMatch 0 none).map fun
    | (res, none) => (none, res)
    | (res, some (r, i)) =>
      match res[i]? with
      | none => (none, res)
      | some c => (some r, res.advance i c)

theorem next_of_nextChecked {res : CnodeResult} {out : Option Nat × CnodeResult}
    (h : res.nextChecked priority isMatch = some out) :
    res.next priority (fun r => isMatch r == some true) = out := by
  obtain ⟨t, ht, hout⟩ := Option.map_eq_some_iff.mp h
  rw [next, scan_of_scanChecked priority isMatch ht]
  exact hout

end CnodeResult

end Next

section Handler

/-! ## The handler -/

variable {Action : Type}

/-- `matches` of the rule under a cursor. -/
def Classifier.checked (s : Classifier PacketExpr Action) (r : Nat) : Option Bool :=
  (s.rules r).elim (some false) fun rule => rule.expr.matchesFlow

/-- The priority of a rule. -/
def Classifier.priorityOf (s : Classifier PacketExpr Action) (id : Nat) : Nat :=
  (s.rules id).elim 0 fun rule => rule.priority

/-- Lookups without data; `undef` is what `get_field` comes to. -/
def noFlow (undef : Nat → Option Nat) : Interface PacketExpr Unit := flows fun _ f => undef f

/-- `get_rules(result)`, which adds to what the result holds. -/
def Classifier.getRulesOnto (undef : Nat → Option Nat) (s : Classifier PacketExpr Action)
    (res : CnodeResult) : CnodeResult :=
  getRulesLoop ((noFlow undef).values ()) ((noFlow undef).nodup ()) [s.root] res

/-- What components do with the classifier: `register_handler_on_match` and
`unregister_handler`. -/
inductive Registration (Action : Type)
  | register (priority : Nat) (expr : PacketExpr) (action : Action)
  | unregister (id : Nat)

def Registration.label : Registration Action → Label PacketExpr Action Unit
  | .register priority expr action => .addRule priority expr action
  | .unregister id => .deleteRule id

/-- A call of `handle_packet_in`: the classifier at the event, the packet, `top_priority`, the
rules whose actions have returned, and `match`, whose action is running. -/
structure PacketCall (Action : Type) where
  before : Classifier PacketExpr Action
  packet : PacketHeader
  topPriority : Nat
  returned : List Nat
  running : Nat

/-- A call that is over: the rule whose action has thrown, if one has, and the rules whose
actions were run; no list when the assertion in `matches` has failed. -/
structure PacketHandled (Action : Type) where
  before : Classifier PacketExpr Action
  packet : PacketHeader
  thrower : Option Nat
  ran : Option (List Nat)

/-- `Packet_classifier`: the rules and `result`, which is nothing when an iterator in it is
dangling; the calls of the handler that are running and those that are over, and whether an
assertion has ended the program. -/
structure PacketClassifier (Action : Type) where
  classifier : Classifier PacketExpr Action
  result : Option CnodeResult
  calls : List (PacketCall Action)
  handled : List (PacketHandled Action)
  aborted : Bool

/-- The default constructor. -/
def PacketClassifier.start : PacketClassifier Action where
  classifier := .start none
  result := some []
  calls := []
  handled := []
  aborted := false

/-- What happens to the classifier.  Packets and registrations come at any time, also while an
action runs; the actions of the running calls return or throw in any order. -/
inductive PacketLabel (Action : Type)
  | registration (r : Registration Action)
  | packetIn (packet : PacketHeader)
  | returns (i : Nat)
  | throws (i : Nat)

/-- An iterator when the list has changed: it stays on its rule, if that is still there. -/
def Cursor.follow (rules : List Nat) (c : Cursor) : Option Cursor :=
  if c.head ∈ rules then some { c with tail := (rules.dropWhile (· ≠ c.head)).tail } else none

namespace PacketClassifier

variable (undef : Nat → Option Nat) (p : PacketClassifier Action)

/-- `match = result.next()` and what follows.  The action of the match is called when it is the
first or has the priority `top_priority`; else the result is cleared, and the call returns. -/
def goOn (before : Classifier PacketExpr Action) (packet : PacketHeader)
    (topPriority : Option Nat) (returned : List Nat) (res : CnodeResult) :
    PacketClassifier Action :=
  match res.nextChecked p.classifier.priorityOf p.classifier.checked with
  | none => { p with handled := ⟨before, packet, none, none⟩ :: p.handled, aborted := true }
  | some (none, _) =>
    { p with
      result := some []
      handled := ⟨before, packet, none, some returned⟩ :: p.handled }
  | some (some r, res') =>
    if topPriority.all (· == p.classifier.priorityOf r) then
      { p with
        result := some res'
        calls := ⟨before, packet, p.classifier.priorityOf r, returned, r⟩ :: p.calls }
    else
      { p with
        result := some []
        handled := ⟨before, packet, none, some returned⟩ :: p.handled }

/-- `handle_packet_in` up to the first action. -/
def handlePacketIn (packet : PacketHeader) (res : CnodeResult) : PacketClassifier Action :=
  p.goOn p.classifier packet none [] (p.classifier.getRulesOnto undef res)

/-- The action of the call `i` has returned. -/
def actionReturns (i : Nat) (c : PacketCall Action) (res : CnodeResult) :
    PacketClassifier Action :=
  goOn { p with calls := p.calls.eraseIdx i } c.before c.packet (some c.topPriority)
    (c.returned ++ [c.running]) res

/-- It has thrown, and the result is left as it is. -/
def actionThrows (i : Nat) (c : PacketCall Action) : PacketClassifier Action :=
  { p with
    calls := p.calls.eraseIdx i
    handled :=
      ⟨c.before, c.packet, some c.running, some (c.returned ++ [c.running])⟩ :: p.handled }

/-- A rule is added or removed, and the iterators in the result follow. -/
def register (r : Registration Action) : Option (PacketClassifier Action) :=
  (p.classifier.step (noFlow undef) r.label).map fun s =>
    { p with
      classifier := s
      result := p.result.bind fun res => res.mapM (Cursor.follow s.root.rules) }

/-- A step; none when the program has ended, when a dangling iterator is used, and when there
is no such call. -/
def step (l : PacketLabel Action) : Option (PacketClassifier Action) :=
  if p.aborted then none
  else
    match l with
    | .registration r => p.register undef r
    | .packetIn packet => p.result.map (p.handlePacketIn undef packet)
    | .returns i => p.calls[i]?.bind fun c => p.result.map (p.actionReturns i c)
    | .throws i => p.calls[i]?.map (p.actionThrows i)

end PacketClassifier

end Handler

end Nox.Classify
