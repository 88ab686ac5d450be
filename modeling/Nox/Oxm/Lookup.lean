import Nox.Learning.Switch
import Nox.Ofl.Messages
import Nox.Oxm.RoundTrip

/-!
# Lookup by hash alone

The loops over the entries with the hash of a header do not compare the headers.  As
`hash_int` is injective and every entry is stored under the hash of its header, each of
them goes over the entries with that header and no others (`selects_by_header`).
-/

namespace Nox.Oxm

open Ofl OxmFieldIndex

section Definitions

/-! ## `Flow::get_Field` -/

/-- `get_Field` of a value of `size` bytes, for the header that the name stands for: a field
that is not there reads as -1. -/
def getFieldValue (size : Nat) (m : OflMatch) (header : UInt32) : Bytes :=
  match m.withHash header with
  | omt :: _ => omt.value.take size
  | [] => List.replicate size 255

/-- `get_Field` of an address, into the memory `value`: of `eth_src` the first byte is set when
it is not there, any other name leaves the memory as it is. -/
def getFieldEth (m : OflMatch) (name : String) (header : UInt32) (value : Bytes) : Bytes :=
  match m.withHash header with
  | omt :: _ => omt.value.take ethAddrLen
  | [] => if name = "eth_src" then value.set 0 255 else value

/-- The first entry with a header. -/
def firstWithHeader (m : OflMatch) (header : UInt32) : Option OflMatchTlv :=
  m.entries.find? (·.header == header)

/-- The prerequisites that both encoders write first, with `swap` applied to the words. -/
def putByHeader (swap : Nat → Nat → Nat) (m : OflMatch) : Bytes :=
  (withHeader inPort.header m.entries).flatMap
      (fun oft => oxmPut32 oft.header (swap 4 (load 4 oft.value))) ++
    (withHeader ethType.header m.entries).flatMap
      (fun oft => oxmPut16 oft.header (swap 2 (load 2 oft.value))) ++
    (withHeader vlanVid.header m.entries).flatMap
      (fun oft => oxmPut16 oft.header (swap 2 (load 2 oft.value))) ++
    (withHeader ipProto.header m.entries).flatMap
      (fun oft => oxmPut8 oft.header (load 1 oft.value))

end Definitions

section Selection

/-! ## Entries by hash and by header -/

variable (m : OflMatch) (header : UInt32)

theorem withHash_isEmpty : (m.withHash header).isEmpty = !m.entries.any (·.header == header) := by
  rw [OflMatch.withHash_eq, Bool.eq_iff_iff, List.isEmpty_iff, List.filter_eq_nil_iff]
  simp

theorem withHash_head? : (m.withHash header).head? = firstWithHeader m header := by
  rw [OflMatch.withHash_eq, List.head?_filter, firstWithHeader]

theorem checkPresentPrereq_eq :
    checkPresentPrereq m header = m.entries.any (·.header == header) := by
  rw [checkPresentPrereq, withHash_isEmpty, Bool.not_not]

theorem checkOxmDup_eq (om : OxmField) :
    checkOxmDup m om = m.entries.any (·.header == om.header) := by
  rw [checkOxmDup, withHash_isEmpty, Bool.not_not]

theorem getOxmValue_eq : getOxmValue m header = (firstWithHeader m header).map (·.value) := by
  rw [getOxmValue, withHash_head?]

/-- What is done with the first entry visited is done with the first with the header. -/
theorem match_withHash {α : Type} (found : OflMatchTlv → α) (absent : α) :
    (match m.withHash header with
      | omt :: _ => found omt
      | [] => absent) = (firstWithHeader m header).elim absent found := by
  rw [← withHash_head?]
  cases m.withHash header with
  | nil => rfl
  | cons omt rest => rfl

theorem getFieldValue_eq (size : Nat) :
    getFieldValue size m header =
      (firstWithHeader m header).elim (List.replicate size 255) (·.value.take size) :=
  match_withHash m header _ _

theorem getFieldEth_eq (name : String) (value : Bytes) :
    getFieldEth m name header value =
      (firstWithHeader m header).elim (if name = "eth_src" then value.set 0 255 else value)
        (·.value.take ethAddrLen) :=
  match_withHash m header _ _

theorem oxmPutRequisites_eq : oxmPutRequisites m = putByHeader hton m := by
  unfold oxmPutRequisites
  simp only [OflMatch.withHash_eq]
  rfl

theorem oxmPutPacketRequisites_eq :
    oxmPutPacketRequisites m = putByHeader (fun _ value => value) m := by
  unfold oxmPutPacketRequisites
  simp only [OflMatch.withHash_eq]
  rfl

theorem leNat_replicate (k : Nat) : leNat (List.replicate k 255) = 256 ^ k - 1 := by
  induction k with
  | zero => rfl
  | succ k ih =>
    have hpos : 0 < 256 ^ k := Nat.pow_pos (by omega)
    rw [List.replicate_succ, leNat, ih, show (255 : UInt8).toNat = 255 from rfl, pow_succ]
    omega

/-- The switch reads the number that these bytes are. -/
theorem leNat_getFieldValue (size : Nat) (field : OxmFieldIndex) :
    leNat (getFieldValue size m field.header) = Learning.getField size m field := by
  rw [getFieldValue, Learning.getField, Learning.fieldMemory, getOxmValue]
  cases m.withHash field.header with
  | nil => exact leNat_replicate size
  | cons omt rest => rfl

end Selection

section Loops

/-! ## The six loops -/

/-- Every loop that goes by the hash of a header does what it would do on the entries with the
header, in their order. -/
structure SelectsByHeader (m : OflMatch) : Prop where
  visited : ∀ header, m.withHash header = m.entries.filter (·.header == header)
  present : ∀ header, checkPresentPrereq m header = m.entries.any (·.header == header)
  prereqs : ∀ f, oxmPrereqsOk f m = prereqsOn f m.entries
  dup : ∀ om, checkOxmDup m om = m.entries.any (·.header == om.header)
  value : ∀ header, getOxmValue m header = (firstWithHeader m header).map (·.value)
  put : oxmPutRequisites m = putByHeader hton m
  putPacket : oxmPutPacketRequisites m = putByHeader (fun _ value => value) m
  field : ∀ size header, getFieldValue size m header =
    (firstWithHeader m header).elim (List.replicate size 255) (·.value.take size)
  address : ∀ name header value, getFieldEth m name header value =
    (firstWithHeader m header).elim (if name = "eth_src" then value.set 0 255 else value)
      (·.value.take ethAddrLen)

theorem selects_by_header :
    (∀ basis, Function.Injective fun x => hashInt x basis) ∧ ∀ m : OflMatch, SelectsByHeader m := by
  refine ⟨hashInt_injective, fun m => ?_⟩
  exact {
    visited := m.withHash_eq
    present := checkPresentPrereq_eq m
    prereqs := fun f => oxmPrereqsOk_eq f m
    dup := checkOxmDup_eq m
    value := getOxmValue_eq m
    put := oxmPutRequisites_eq m
    putPacket := oxmPutPacketRequisites_eq m
    field := fun size header => getFieldValue_eq m header size
    address := fun name header value => getFieldEth_eq m header name value }

end Loops

end Nox.Oxm
