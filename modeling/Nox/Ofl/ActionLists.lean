import Nox.Ofl.SetField

/-!
# Lists of actions on the wire

Every action is as long as its header and `ofl_actions_ofp_len` say, and the decoder takes
just these bytes.  It gives the action back, but for a `set_field` of eight bytes, which
`ofl_actions_pack` cuts to two: a list comes back when all its fields of eight bytes are
zero (`actions_roundTrips_iff`).
-/

namespace Nox.Ofl

open Oxm
open Lib (ok_bind)

section Actions

/-! ## Well-formed actions -/

/-- The parameters have the widths of the fields and pass the checks of the decoder; a
`set_field` is of a field of the table, without a mask, and its value has the size of the
field. -/
def OflAction.WellFormed : OflAction → Prop
  | .output port maxLen =>
    port < 2 ^ 32 ∧ maxLen < 2 ^ 16 ∧
      ¬(port = 0 ∨ ofppMax < port ∧ port < ofppInPort ∨ port = ofppAny)
  | .header _ => True
  | .setMplsTtl mplsTtl => mplsTtl < 2 ^ 8
  | .push type ethertype => ethertype < 2 ^ 16 ∧ pushTypeOk type ethertype = true
  | .popMpls ethertype => ethertype < 2 ^ 16
  | .setQueue queueId => queueId < 2 ^ 32
  | .group groupId => groupId ≤ ofpgMax
  | .setNwTtl nwTtl => nwTtl < 2 ^ 8
  | .setField field value =>
    (∃ f ∈ oxmFields, f.header = field ∧ oxmHasmask field = false) ∧
      value.length = oxmLength field
  | .untyped => False

/-- A field of eight bytes is zero. -/
def OflAction.Kept : OflAction → Prop
  | .setField field value => oxmLength field = 8 → value = List.replicate 8 0
  | _ => True

/-- The action that comes back. -/
def OflAction.carried : OflAction → OflAction
  | .setField field value => .setField field (hostValue field (packSetFieldValue field value []))
  | a => a

theorem unmasked_mem_sizes {f : OxmField} (hf : f ∈ oxmFields) (hm : oxmHasmask f.header = false) :
    oxmLength f.header ∈ setFieldSizes := by
  revert f
  decide

theorem isSwapped_of_eight {header : UInt32} (h : oxmLength header = 8) :
    isSwapped header = true := by
  simp [isSwapped, h]

theorem hostValue_hostValue (header : UInt32) (value : Bytes) :
    hostValue header (hostValue header value) = value := by
  unfold hostValue
  split
  · exact List.reverse_reverse value
  · rfl

section Value

variable {header : UInt32} {value : Bytes} (hlen : value.length = oxmLength header)
  (hsize : oxmLength header ∈ setFieldSizes)

include hlen hsize

/-- Of a size with a case nothing is left of what was there before, and all bytes are
written. -/
theorem packSetFieldValue_spec (old : Bytes) :
    packSetFieldValue header value old = packSetFieldValue header value [] ∧
      (packSetFieldValue header value old).length = oxmLength header := by
  have hlast := hsize
  simp only [setFieldSizes, List.mem_cons, List.not_mem_nil, or_false] at hlast
  unfold packSetFieldValue
  rcases hlast with hk | hk | hk | hk | hk | hk <;> rw [hk] at hlen ⊢ <;>
    simp only [true_and, List.length_take, leBytes_length, hlen, Nat.min_self]
  split
  · simp only [List.length_take, hlen, Nat.min_self]
  · simp only [leBytes_length]

theorem carried_setField_iff :
    (OflAction.setField header value).carried = .setField header value ↔
      (OflAction.setField header value).Kept := by
  simp only [OflAction.carried, OflAction.Kept, OflAction.setField.injEq, true_and]
  by_cases h8 : oxmLength header = 8
  · have hvalue : leBytes 8 (leNat value) = value := leBytes_leNat_of_length (hlen.trans h8)
    have hlt : leNat value < 256 ^ 8 := by
      have hbound := leNat_lt value
      rwa [hlen, h8] at hbound
    rw [← hvalue, packSetFieldValue_eight h8, hvalue, Nat.mod_eq_of_lt hlt, hostValue,
      isSwapped_of_eight h8, if_pos rfl]
    constructor
    · intro heq _
      have hcut : leBytes 8 (hton 2 (leNat value)) = beBytes 8 (leNat value) := by
        rw [beBytes, hvalue]
        exact List.reverse_eq_iff.mp heq
      rw [← hvalue, eq_zero_of_cut hlt hcut]
      rfl
    · intro hzero
      rw [hzero h8]
      decide
  · refine iff_of_true ?_ fun h => absurd h h8
    rw [← hostValue_hostValue header value, packSetFieldValue_host _ hsize h8]
    rw [hostValue]
    split
    · rw [List.length_reverse, hlen]
    · exact hlen

end Value

end Actions

section Decode

/-! ## One action -/

theorem packAction_length (type len : Nat) (body : Bytes) :
    (packAction type len body).length = 4 + body.length := by
  simp only [packAction, List.length_append, beBytes_length]

variable {type : Nat} {body rest : Bytes}

theorem readType_packAction (htype : type < 2 ^ 16) (len : Nat) :
    readNtoh (packAction type len body ++ rest) 0 2 = .ok type := by
  unfold packAction
  simp only [List.append_assoc]
  exact readNtoh_append (a := []) rfl htype

theorem readLen_packAction {len : Nat} (hlen : len < 2 ^ 16) :
    readNtoh (packAction type len body ++ rest) 2 2 = .ok len := by
  unfold packAction
  simp only [List.append_assoc]
  exact readNtoh_append (beBytes_length 2 type) hlen

/-- A number in the body is read behind the header. -/
theorem readBody_packAction {len off k n : Nat} (before : Bytes) {behind : Bytes}
    (hoff : 4 + before.length = off) (hn : n < 256 ^ k) :
    readNtoh (packAction type len (before ++ (beBytes k n ++ behind)) ++ rest) off k = .ok n := by
  have hbytes : packAction type len (before ++ (beBytes k n ++ behind)) ++ rest =
      (beBytes 2 type ++ beBytes 2 len ++ before) ++ (beBytes k n ++ (behind ++ rest)) := by
    simp only [packAction, List.append_assoc]
  rw [hbytes]
  apply readNtoh_append _ hn
  simp only [List.length_append, beBytes_length]
  omega

theorem readParameter_packAction {len k n : Nat} {behind : Bytes} (hn : n < 256 ^ k) :
    readNtoh (packAction type len (beBytes k n ++ behind) ++ rest) 4 k = .ok n :=
  readBody_packAction [] rfl hn

/-- Bytes that begin with an action of a type and a length. -/
structure Framed (type len : Nat) (rest src : Bytes) : Prop where
  readType : readNtoh src 0 2 = .ok type
  readLen : readNtoh src 2 2 = .ok len
  check : ∀ n ≤ len, checkSize src.length n = .ok ()
  le : len ≤ src.length
  sub : sizeSub src.length len = rest.length

theorem framed_packAction {len : Nat} (htype : type < 2 ^ 16) (hlt : len < 2 ^ 16)
    (hlen : 4 + body.length = len) (hfits : (packAction type len body ++ rest).length < 2 ^ 64) :
    Framed type len rest (packAction type len body ++ rest) := by
  have hlength : (packAction type len body ++ rest).length = len + rest.length := by
    rw [List.length_append, packAction_length, hlen]
  refine ⟨readType_packAction htype len, readLen_packAction hlt, fun n hn => ?_, by omega, ?_⟩
  · exact if_neg (by omega)
  · rw [sizeSub_eq hfits (by omega)]
    omega

/-- An action of eight bytes with one number. -/
theorem Framed.parameter {src : Bytes} (h : Framed type 8 rest src) {k n : Nat}
    (hread : readNtoh src 4 k = .ok n) (f : Nat → OflAction) :
    (do
      checkSize src.length 8
      return (f (← readNtoh src 4 k), sizeSub src.length 8)) =
        (.ok (f n, rest.length) : Unpack (OflAction × Nat)) := by
  rw [h.check 8 (Nat.le_refl 8), ok_bind, hread, ok_bind, h.sub]
  rfl

/-- The decoder gives an action back as it is carried, and takes just its bytes. -/
theorem oflActionsUnpack_pack {a : OflAction} (h : a.WellFormed) {old bytes : Bytes}
    (hpack : oflActionsPack old a = some bytes) (fresh : Bytes)
    (hfits : (bytes ++ rest).length < 2 ^ 64) :
    oflActionsUnpack fresh (bytes ++ rest) (bytes ++ rest).length =
      .ok (a.carried, rest.length) := by
  cases a with
  | output port maxLen =>
    obtain ⟨hport, hmaxLen, hvalid⟩ := h
    cases hpack
    have hframed := framed_packAction (by decide) (by decide) (by simp) hfits
    rw [List.append_assoc] at hframed ⊢
    unfold oflActionsUnpack
    rw [checked_bind hframed.readType hframed.readLen (by decide) hframed.le (by decide)]
    show unpackOutput _ _ = _
    rw [unpackOutput, hframed.check 16 (Nat.le_refl 16), ok_bind, readParameter_packAction hport,
      ok_bind, if_neg hvalid, readBody_packAction _ (by simp) hmaxLen, ok_bind, hframed.sub]
    rfl
  | header type =>
    cases hpack
    have hframed := framed_packAction (by cases type <;> decide) (by decide) (by simp) hfits
    unfold oflActionsUnpack
    rw [checked_bind hframed.readType hframed.readLen (by decide) hframed.le (by decide)]
    cases type <;> exact congrArg (fun n => Except.ok (_, n)) hframed.sub
  | setMplsTtl mplsTtl =>
    cases hpack
    have hframed := framed_packAction (by decide) (by decide) (by simp) hfits
    unfold oflActionsUnpack
    rw [checked_bind hframed.readType hframed.readLen (by decide) hframed.le (by decide)]
    exact hframed.parameter (readParameter_packAction h) .setMplsTtl
  | push type ethertype =>
    cases hpack
    have hframed := framed_packAction (by cases type <;> decide) (by decide) (by simp) hfits
    have hpush {src : Bytes} (hsrc : Framed type.type 8 rest src)
        (hread : readNtoh src 4 2 = .ok ethertype) :
        unpackPush type src src.length = .ok (.push type ethertype, rest.length) := by
      rw [unpackPush, hsrc.check 8 (Nat.le_refl 8), ok_bind, hread, ok_bind, if_pos h.2, hsrc.sub]
      rfl
    unfold oflActionsUnpack
    rw [checked_bind hframed.readType hframed.readLen (by decide) hframed.le (by decide)]
    cases type <;> exact hpush hframed (readParameter_packAction h.1)
  | popMpls ethertype =>
    cases hpack
    have hframed := framed_packAction (by decide) (by decide) (by simp) hfits
    unfold oflActionsUnpack
    rw [checked_bind hframed.readType hframed.readLen (by decide) hframed.le (by decide)]
    exact hframed.parameter (readParameter_packAction h) .popMpls
  | setQueue queueId =>
    cases hpack
    have hframed := framed_packAction (by decide) (by decide) (by simp) hfits
    rw [← List.append_nil (beBytes 4 queueId)] at hframed ⊢
    unfold oflActionsUnpack
    rw [checked_bind hframed.readType hframed.readLen (by decide) hframed.le (by decide)]
    exact hframed.parameter (readParameter_packAction h) .setQueue
  | group groupId =>
    cases hpack
    have hlt : groupId < 256 ^ 4 := Nat.lt_of_le_of_lt h (by decide)
    have hframed := framed_packAction (by decide) (by decide) (by simp) hfits
    rw [← List.append_nil (beBytes 4 groupId)] at hframed ⊢
    unfold oflActionsUnpack
    rw [checked_bind hframed.readType hframed.readLen (by decide) hframed.le (by decide)]
    show unpackGroup _ _ = _
    rw [unpackGroup, hframed.check 8 (Nat.le_refl 8), ok_bind, readParameter_packAction hlt, ok_bind,
      if_neg (Nat.not_lt.mpr h), hframed.sub]
    rfl
  | setNwTtl nwTtl =>
    cases hpack
    have hframed := framed_packAction (by decide) (by decide) (by simp) hfits
    unfold oflActionsUnpack
    rw [checked_bind hframed.readType hframed.readLen (by decide) hframed.le (by decide)]
    exact hframed.parameter (readParameter_packAction h) .setNwTtl
  | setField field value =>
    obtain ⟨⟨f, hf, rfl, hmask⟩, hlen⟩ := h
    have hsize := unmasked_mem_sizes hf hmask
    obtain ⟨hspec, hpayload⟩ := packSetFieldValue_spec hlen hsize (old.drop 8)
    rw [oflActionsPack_setField, hspec] at hpack
    rw [hspec] at hpayload
    cases hpack
    exact oflActionsUnpack_setFieldBytes_append hpayload hsize fresh rest hfits
  | untyped => cases hpack

end Decode

section Lengths

/-! ## Lengths -/

/-- An action is packed in as many bytes as its length says, as its header says and as the
decoder takes. -/
structure Measured (a : OflAction) : Prop where
  packs : ∀ old, ∃ bytes, oflActionsPack old a = some bytes
  announced : ∀ old bytes, oflActionsPack old a = some bytes →
    oflActionsOfpLen a = some bytes.length ∧ readNtoh bytes 2 2 = .ok bytes.length
  consumed : ∀ old bytes, oflActionsPack old a = some bytes → ∀ fresh rest,
    (bytes ++ rest).length < 2 ^ 64 → ∃ a',
      oflActionsUnpack fresh (bytes ++ rest) (bytes ++ rest).length = .ok (a', rest.length)

/-- The bytes of an action, with its length, which is also read where more follows. -/
def PackedAs (a : OflAction) (packed : Option Bytes) : Prop :=
  ∃ bytes, packed = some bytes ∧ oflActionsOfpLen a = some bytes.length ∧ 8 ≤ bytes.length ∧
    ∀ rest, readNtoh (bytes ++ rest) 2 2 = .ok bytes.length

theorem packedAs_packAction {a : OflAction} {type len : Nat} {body : Bytes}
    (hofp : oflActionsOfpLen a = some len) (hlen : 4 + body.length = len) (hmin : 8 ≤ len)
    (hlt : len < 2 ^ 16) : PackedAs a (some (packAction type len body)) := by
  have hlength : (packAction type len body).length = len := by rw [packAction_length, hlen]
  refine ⟨_, rfl, by rw [hofp, hlength], by rw [hlength]; exact hmin, fun rest => ?_⟩
  rw [hlength]
  exact readLen_packAction hlt

theorem packedAs_pack {a : OflAction} (h : a.WellFormed) (old : Bytes) :
    PackedAs a (oflActionsPack old a) := by
  cases a with
  | setField field value =>
    obtain ⟨⟨f, hf, rfl, hmask⟩, hlen⟩ := h
    obtain ⟨-, hpayload⟩ :=
      packSetFieldValue_spec hlen (unmasked_mem_sizes hf hmask) (old.drop 8)
    have hlength := setFieldBytes_length hpayload
    rw [oflActionsPack_setField]
    refine ⟨_, rfl, by rw [hlength]; rfl, by rw [hlength]; omega, fun rest => ?_⟩
    rw [hlength]
    exact (readsSetField hpayload rest).len
  | untyped => exact h.elim
  | _ => exact packedAs_packAction rfl (by simp) (by decide) (by decide)

theorem measured {a : OflAction} (h : a.WellFormed) : Measured a where
  packs := by
    intro old
    obtain ⟨bytes, hpack, -⟩ := packedAs_pack h old
    exact ⟨bytes, hpack⟩
  announced := by
    intro old bytes hpack
    obtain ⟨bytes', hpack', hofp, -, hread⟩ := packedAs_pack h old
    cases hpack.symm.trans hpack'
    have hread := hread []
    rw [List.append_nil] at hread
    exact ⟨hofp, hread⟩
  consumed := fun old bytes hpack fresh rest hfits =>
    ⟨a.carried, oflActionsUnpack_pack h hpack fresh hfits⟩

end Lengths

section Lists

/-! ## Lists -/

variable {acts : List OflAction}

/-- What is packed for a list: the bytes of the first action, then those of the others. -/
theorem packActions_cons {a : OflAction} (h : a.WellFormed) (old : Bytes) :
    ∃ bytes, oflActionsPack old a = some bytes ∧ 8 ≤ bytes.length ∧
      (∀ rest, readNtoh (bytes ++ rest) 2 2 = .ok bytes.length) ∧
      ∀ wire, packActions (old.drop bytes.length) acts = some wire →
        packActions old (a :: acts) = some (bytes ++ wire) := by
  obtain ⟨bytes, hpack, -, hmin, hread⟩ := packedAs_pack h old
  refine ⟨bytes, hpack, hmin, hread, fun wire hwire => ?_⟩
  rw [packActions, hpack, Option.bind_eq_bind, Option.bind_some, hwire]
  rfl

/-- The packed actions are counted, and each comes back as it is carried. -/
theorem unpack_packActions (h : ∀ a ∈ acts, a.WellFormed) (fresh : Nat → Bytes) (old : Bytes) :
    ∃ wire, packActions old acts = some wire ∧
      oflUtilsCountOfpActions wire wire.length = .ok acts.length ∧
      (wire.length < 2 ^ 64 → unpackCounted fresh acts.length wire wire.length =
        .ok (acts.map OflAction.carried, 0)) := by
  induction acts generalizing old with
  | nil =>
    refine ⟨[], rfl, ?_, fun _ => rfl⟩
    rw [oflUtilsCountOfpActions]
    rfl
  | cons a acts ih =>
    have ha := h a List.mem_cons_self
    obtain ⟨bytes, hpack, hmin, hread, hcons⟩ := @packActions_cons acts a ha old
    obtain ⟨wire, hwire, hcount, hloop⟩ :=
      ih (fun b hb => h b (List.mem_cons_of_mem a hb)) (old.drop bytes.length)
    refine ⟨bytes ++ wire, hcons wire hwire, ?_, fun hfits => ?_⟩
    · have hlong : 4 ≤ (bytes ++ wire).length := by
        rw [List.length_append]
        omega
      have hgood : ¬((bytes ++ wire).length < bytes.length ∨ bytes.length < 4) := by
        rw [List.length_append]
        omega
      have hleft : (bytes ++ wire).length - bytes.length = wire.length := by
        rw [List.length_append]
        omega
      rw [oflUtilsCountOfpActions, if_pos hlong, hread wire]
      dsimp only
      rw [if_neg hgood, List.drop_left, hleft, hcount]
      rfl
    · have hrest : wire.length < 2 ^ 64 := by
        rw [List.length_append] at hfits
        omega
      rw [List.length_cons, unpackCounted, oflActionsUnpack_pack ha hpack _ hfits, ok_bind]
      dsimp only
      rw [hread wire, ok_bind, List.drop_left, hloop hrest]
      rfl

theorem carried_iff {a : OflAction} (h : a.WellFormed) : a.carried = a ↔ a.Kept := by
  cases a with
  | setField field value =>
    obtain ⟨⟨f, hf, rfl, hmask⟩, hlen⟩ := h
    exact carried_setField_iff hlen (unmasked_mem_sizes hf hmask)
  | _ => exact iff_of_true rfl trivial

/-- The list is packed, its bytes are used up, and the same list comes back; each action has
the length that is announced and taken. -/
structure RoundTrips (fresh : Nat → Bytes) (old : Bytes) (acts : List OflAction) : Prop where
  back : ∃ wire, packActions old acts = some wire ∧
    unpackActions fresh wire wire.length = .ok (acts, 0)
  measured : ∀ a ∈ acts, Measured a

/-- The bytes of a list fit into memory. -/
def FitsMemory (old : Bytes) (acts : List OflAction) : Prop :=
  ∀ wire, packActions old acts = some wire → wire.length < 2 ^ 64

theorem unpackActions_packActions (h : ∀ a ∈ acts, a.WellFormed) (fresh : Nat → Bytes)
    {old : Bytes} (hfits : FitsMemory old acts) :
    ∃ wire, packActions old acts = some wire ∧
      unpackActions fresh wire wire.length = .ok (acts.map OflAction.carried, 0) := by
  obtain ⟨wire, hwire, hcount, hloop⟩ := unpack_packActions h fresh old
  refine ⟨wire, hwire, ?_⟩
  rw [unpackActions, hcount, ok_bind, hloop (hfits wire hwire)]

theorem roundTrips_iff_carried (h : ∀ a ∈ acts, a.WellFormed) (fresh : Nat → Bytes)
    {old : Bytes} (hfits : FitsMemory old acts) :
    RoundTrips fresh old acts ↔ acts.map OflAction.carried = acts := by
  obtain ⟨wire, hwire, hback⟩ := unpackActions_packActions h fresh hfits
  constructor
  · rintro ⟨⟨wire', hwire', hunpack⟩, -⟩
    cases hwire.symm.trans hwire'
    rw [hback] at hunpack
    exact congrArg Prod.fst (Except.ok.inj hunpack)
  · intro heq
    refine ⟨⟨wire, hwire, ?_⟩, fun a ha => Ofl.measured (h a ha)⟩
    rw [hback, heq]

/-- A list of actions comes back when all its fields of eight bytes are zero. -/
theorem actions_roundTrips_iff (h : ∀ a ∈ acts, a.WellFormed) (fresh : Nat → Bytes) (old : Bytes)
    (hfits : FitsMemory old acts) : RoundTrips fresh old acts ↔ ∀ a ∈ acts, a.Kept := by
  have hid := @List.map_inj_left _ _ acts OflAction.carried id
  rw [List.map_id] at hid
  rw [roundTrips_iff_carried h fresh hfits, hid]
  exact forall₂_congr fun a ha => carried_iff (h a ha)

/-- The port is written and sent out. -/
theorem output_roundTrips : RoundTrips (fun _ => []) []
    [.setField OxmFieldIndex.tcpDst.header [80, 0], .output 1 0] := by
  have hfits : FitsMemory [] [.setField OxmFieldIndex.tcpDst.header [80, 0], .output 1 0] := by
    intro wire hwire
    cases hwire
    decide
  refine (actions_roundTrips_iff ?_ _ [] hfits).mpr ?_
  · simp only [List.forall_mem_cons, OflAction.WellFormed, List.not_mem_nil, false_implies,
      implies_true, and_true]
    decide
  · simp only [List.forall_mem_cons, OflAction.Kept, List.not_mem_nil, false_implies,
      implies_true, and_true]
    decide

/-- The metadata 1 comes back as 2^48. -/
theorem metadata_not_back :
    (OflAction.setField OxmFieldIndex.metadata.header [1, 0, 0, 0, 0, 0, 0, 0]).WellFormed ∧
      ¬RoundTrips (fun _ => []) []
        [.setField OxmFieldIndex.metadata.header [1, 0, 0, 0, 0, 0, 0, 0]] := by
  have hwf : (OflAction.setField OxmFieldIndex.metadata.header
      [1, 0, 0, 0, 0, 0, 0, 0]).WellFormed := by
    simp only [OflAction.WellFormed]
    decide
  have hfits : FitsMemory []
      [.setField OxmFieldIndex.metadata.header [1, 0, 0, 0, 0, 0, 0, 0]] := by
    intro wire hwire
    cases hwire
    decide
  refine ⟨hwf, fun hback => ?_⟩
  rw [roundTrips_iff_carried (List.forall_mem_singleton.mpr hwf) _ hfits] at hback
  exact absurd hback (by decide)

end Lists

end Nox.Ofl
