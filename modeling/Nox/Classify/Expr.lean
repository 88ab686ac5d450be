import Nox.Classify.Flat
import Nox.Lib.Bytes

/-!
# Packet expressions

`Packet_expr` is the expression of the classifier of packets, which is asked about
other packet expressions and about flows.  For packet expressions `get_field` and
`matches` agree (`packetExprs_coherent`).  For flows `get_field` ends without a
return when it is called with the index 0, and `matches` accepts everything.
-/

namespace Nox.Classify

section PacketExpr

/-! ## Expressions -/

structure PacketExpr where
  apSrc : Nat
  apDst : Nat
  dlVlan : Nat
  dlVlanPcp : Nat
  dlProto : Nat
  dlSrc : Bytes
  dlDst : Bytes
  nwSrc : Nat
  nwDst : Nat
  tpSrc : Nat
  tpDst : Nat
  groupSrc : Nat
  groupDst : Nat
  wildcards : Nat
  nwProto : Nat

namespace PacketExpr

/-- The `switch` of `get_field`, over the fields in the order of `Expr_field`. -/
def stored (e : PacketExpr) : Nat → Option Nat
  | 0 => some e.apSrc
  | 1 => some e.apDst
  | 2 => some e.dlVlan
  | 3 => some e.dlVlanPcp
  | 4 => some e.dlProto
  | 5 => some (leNat (e.dlSrc.drop 2))
  | 6 => some (leNat (e.dlDst.drop 2))
  | 7 => some e.nwSrc
  | 8 => some e.nwDst
  | 9 => some e.nwProto
  | 10 => some e.tpSrc
  | 11 => some e.tpDst
  | 12 => some e.groupSrc
  | 13 => some e.groupDst
  | _ => none

/-- `get_field` -/
def getField (e : PacketExpr) (field : Nat) : Option Nat :=
  if e.wildcards.testBit field then none else e.stored field

/-- `splittable` -/
def splittable (e : PacketExpr) (path : Nat) : Bool :=
  (path ||| e.wildcards) % 2 ^ 32 != 2 ^ 32 - 1

/-- `matches` with a packet expression. -/
def matchesExpr (e d : PacketExpr) : Bool :=
  if e.wildcards ||| d.wildcards ≠ d.wildcards then false
  else
    (d.wildcards.testBit 0 || e.apSrc == d.apSrc) &&
    (d.wildcards.testBit 1 || e.apDst == d.apDst) &&
    (d.wildcards.testBit 2 || e.dlVlan == d.dlVlan) &&
    (d.wildcards.testBit 3 || e.dlVlanPcp == d.dlVlanPcp) &&
    (d.wildcards.testBit 4 || e.dlProto == d.dlProto) &&
    (d.wildcards.testBit 5 || e.dlSrc == d.dlSrc) &&
    (d.wildcards.testBit 6 || e.dlDst == d.dlDst) &&
    (d.wildcards.testBit 7 || e.nwSrc == d.nwSrc) &&
    (d.wildcards.testBit 8 || e.nwDst == d.nwDst) &&
    (d.wildcards.testBit 9 || e.nwProto == d.nwProto) &&
    (d.wildcards.testBit 10 || e.tpSrc == d.tpSrc) &&
    (d.wildcards.testBit 11 || e.tpDst == d.tpDst) &&
    (d.wildcards.testBit 12 || e.groupSrc == d.groupSrc) &&
    (d.wildcards.testBit 13 || e.groupDst == d.groupDst)

/-- An expression that defines the field `DL_TYPE` only. -/
def ofDlType (dlProto : Nat) : PacketExpr where
  apSrc := 0
  apDst := 0
  dlVlan := 0
  dlVlanPcp := 0
  dlProto := dlProto
  dlSrc := [0, 0, 0, 0, 0, 0]
  dlDst := [0, 0, 0, 0, 0, 0]
  nwSrc := 0
  nwDst := 0
  tpSrc := 0
  tpDst := 0
  groupSrc := 0
  groupDst := 0
  wildcards := 2 ^ 32 - 1 - 2 ^ 4
  nwProto := 0

end PacketExpr

end PacketExpr

section Interfaces

/-! ## The data -/

/-- Packet expressions looked up among packet expressions. -/
def packetExprs : Interface PacketExpr PacketExpr where
  numFields := 13
  leafThreshold := 1
  splittable := PacketExpr.splittable
  getField := PacketExpr.getField
  values := fun d f => (d.getField f).toList
  nodup := by
    intro d f
    cases d.getField f with
    | none => exact List.nodup_nil
    | some v => exact List.nodup_singleton v
  isMatch := fun _ e d => e.matchesExpr d

/-- Flows looked up among packet expressions.  What a call of `get_field` with the
index 0 results in is not determined, as the function ends without a return; it is
`undef` here.  The rules leave `AP_DST`, `GROUP_SRC` and `GROUP_DST` open, as the
assertion in `matches` demands. -/
def flows {Flow : Type} (undef : Flow → Nat → Option Nat) : Interface PacketExpr Flow where
  numFields := 13
  leafThreshold := 1
  splittable := PacketExpr.splittable
  getField := PacketExpr.getField
  values := fun d f => (undef d f).toList
  nodup := by
    intro d f
    cases undef d f with
    | none => exact List.nodup_nil
    | some v => exact List.nodup_singleton v
  isMatch := fun _ _ _ => true

theorem stored_of_matchesExpr {e d : PacketExpr} (h : e.matchesExpr d = true) (f : Nat) :
    d.wildcards.testBit f = true ∨ e.stored f = d.stored f := by
  unfold PacketExpr.matchesExpr at h
  split at h
  · cases h
  · simp only [Bool.and_eq_true, Bool.or_eq_true, beq_iff_eq] at h
    obtain ⟨⟨⟨⟨⟨⟨⟨⟨⟨⟨⟨⟨⟨h0, h1⟩, h2⟩, h3⟩, h4⟩, h5⟩, h6⟩, h7⟩, h8⟩, h9⟩, h10⟩, h11⟩, h12⟩, h13⟩ := h
    match f with
    | 0 => exact h0.imp_right fun heq => by simp [PacketExpr.stored, heq]
    | 1 => exact h1.imp_right fun heq => by simp [PacketExpr.stored, heq]
    | 2 => exact h2.imp_right fun heq => by simp [PacketExpr.stored, heq]
    | 3 => exact h3.imp_right fun heq => by simp [PacketExpr.stored, heq]
    | 4 => exact h4.imp_right fun heq => by simp [PacketExpr.stored, heq]
    | 5 => exact h5.imp_right fun heq => by simp [PacketExpr.stored, heq]
    | 6 => exact h6.imp_right fun heq => by simp [PacketExpr.stored, heq]
    | 7 => exact h7.imp_right fun heq => by simp [PacketExpr.stored, heq]
    | 8 => exact h8.imp_right fun heq => by simp [PacketExpr.stored, heq]
    | 9 => exact h9.imp_right fun heq => by simp [PacketExpr.stored, heq]
    | 10 => exact h10.imp_right fun heq => by simp [PacketExpr.stored, heq]
    | 11 => exact h11.imp_right fun heq => by simp [PacketExpr.stored, heq]
    | 12 => exact h12.imp_right fun heq => by simp [PacketExpr.stored, heq]
    | 13 => exact h13.imp_right fun heq => by simp [PacketExpr.stored, heq]
    | _ + 14 => exact .inr rfl

/-- For packet expressions the two functions agree. -/
theorem packetExprs_coherent {Action : Type} (rules : Nat → Option (Rule PacketExpr Action))
    (d : PacketExpr) : packetExprs.Coherent rules d := by
  intro id rule _ hmatch f v hv
  have hv : rule.expr.getField f = some v := hv
  show (d.getField f).toList = [] ∨ v ∈ (d.getField f).toList
  have hstored : rule.expr.stored f = some v := by
    unfold PacketExpr.getField at hv
    split at hv
    · cases hv
    · exact hv
  unfold PacketExpr.getField
  rcases stored_of_matchesExpr hmatch f with hwild | heq
  · rw [if_pos hwild]
    exact .inl rfl
  · split
    · exact .inl rfl
    · rw [← heq, hstored]
      exact .inr (by simp)

theorem packetExprs_admissible {Action : Type} (t : Flat PacketExpr Action)
    (ls : List (Label PacketExpr Action PacketExpr)) : t.Admissible packetExprs ls := by
  induction ls generalizing t with
  | nil => trivial
  | cons l ls ih => exact ⟨fun d _ => packetExprs_coherent t.rules d, ih _⟩

end Interfaces

end Nox.Classify
