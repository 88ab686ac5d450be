import Nox.Lib.Wire
import Nox.Ofl.ActionLists
import Nox.Ofl.Counting
import Nox.Ofl.Sizes

/-!
# Structures on the wire

Instructions, buckets and meter bands as they are to be sent.  The pack functions leave just these
bytes, whatever the memory was, and the decoders take them off the memory and give the structures
back; but a `set_field` of eight bytes comes back as it is carried.
-/

namespace Nox.Ofl

open Oxm Stores Records Unpacked
open Lib (ok_bind)

section Memory

/-! ## Longer memory -/

variable {α β : Type} {d : Bytes → Unpack α} {f : α → Bytes → Unpack β}

/-- What is read of memory is read of it where more is behind. -/
def Extends (d : Bytes → Unpack α) : Prop :=
  ∀ src tail r, d src = .ok r → d (src ++ tail) = .ok r

theorem Extends.const (x : Unpack α) : Extends fun _ => x := fun _ _ _ h => h

theorem Extends.bind (hd : Extends d) (hf : ∀ a, Extends (f a)) :
    Extends fun src => d src >>= fun a => f a src := by
  intro src tail r h
  obtain ⟨a, ha, h⟩ := bind_eq_ok.mp h
  exact bind_eq_ok.mpr ⟨a, hd src tail a ha, hf a src tail r h⟩

theorem Extends.ite {c : Prop} [Decidable c] {d' : Bytes → Unpack α} (hd : Extends d)
    (hd' : Extends d') : Extends fun src => if c then d src else d' src := by
  split
  · exact hd
  · exact hd'

theorem Extends.memcpy (off n : Nat) : Extends fun src => memcpy src off n := by
  intro src tail r h
  change Ofl.memcpy (src ++ tail) off n = .ok r
  change Ofl.memcpy src off n = .ok r at h
  unfold Ofl.memcpy at h ⊢
  split at h
  · next hin =>
    cases h
    rw [if_pos (by rw [List.length_append]; omega), List.drop_append_of_le_length (by omega),
      List.take_append_of_le_length (by rw [List.length_drop]; omega)]
  · cases h

theorem Extends.readNtoh (off k : Nat) : Extends fun src => readNtoh src off k :=
  (Extends.memcpy off k).bind fun _ => .const _

theorem Extends.drop (n : Nat) (hd : Extends d) : Extends fun src => d (src.drop n) := by
  intro src tail r h
  change d ((src ++ tail).drop n) = .ok r
  rw [List.drop_append]
  exact hd _ _ r h

/-- A parameter of an action. -/
theorem Extends.parameter (k : Nat) (len : Nat) (f : Nat → OflAction) :
    Extends fun src => (do
      checkSize len 8
      return (f (← Ofl.readNtoh src 4 k), sizeSub len 8) : Unpack (OflAction × Nat)) :=
  (Extends.const _).bind fun _ => (Extends.readNtoh 4 k).bind fun _ => .const _

theorem extends_setFieldValue (fresh : Bytes) (header : UInt32) :
    Extends fun src => unpackSetFieldValue fresh header src := by
  unfold unpackSetFieldValue
  split
  · exact .memcpy 8 1
  · exact .memcpy 8 6
  · exact .memcpy 8 16
  · exact (Extends.readNtoh 8 2).bind fun _ => .const _
  · exact (Extends.memcpy 8 4).ite ((Extends.readNtoh 8 4).bind fun _ => .const _)
  · exact (Extends.readNtoh 8 8).bind fun _ => .const _
  · exact .const _

theorem extends_push (type : PushAction) (len : Nat) : Extends fun src => unpackPush type src len :=
  (Extends.const _).bind fun _ => (Extends.readNtoh 4 2).bind fun _ => (Extends.const _).ite (.const _)

theorem extends_action (fresh : Bytes) (len : Nat) :
    Extends fun src => oflActionsUnpack fresh src len := by
  refine (Extends.const _).bind fun _ => (Extends.readNtoh 2 2).bind fun n =>
    (Extends.const _).bind fun _ => (Extends.const _).ite ((Extends.readNtoh 0 2).bind fun type => ?_)
  split
  · exact (Extends.const _).bind fun _ => (Extends.readNtoh 4 4).bind fun _ =>
      (Extends.const _).ite ((Extends.readNtoh 8 2).bind fun _ => .const _)
  · exact .const _
  · exact .const _
  · exact .parameter 1 len .setMplsTtl
  · exact .const _
  · exact extends_push .pushVlan len
  · exact extends_push .pushPbb len
  · exact extends_push .pushMpls len
  · exact .const _
  · exact .const _
  · exact .parameter 2 len .popMpls
  · exact .parameter 4 len .setQueue
  · exact (Extends.const _).bind fun _ => (Extends.readNtoh 4 4).bind fun _ =>
      (Extends.const _).ite (.const _)
  · exact .parameter 1 len .setNwTtl
  · exact .const _
  · exact (Extends.readNtoh 4 4).bind fun _ => (extends_setFieldValue fresh _).bind fun _ =>
      (Extends.readNtoh 2 2).bind fun _ => .const _
  · exact .const _
  · exact .const _

theorem extends_count (len : Nat) : Extends fun src => oflUtilsCountOfpActions src len := by
  intro src tail n h
  induction len using Nat.strong_induction_on generalizing src tail n with
  | _ len ih =>
    change oflUtilsCountOfpActions (src ++ tail) len = .ok n
    change oflUtilsCountOfpActions src len = .ok n at h
    rw [oflUtilsCountOfpActions] at h ⊢
    split at h
    · next hlong =>
      rw [if_pos hlong]
      cases hread : readNtoh src 2 2 with
      | error e =>
        rw [hread] at h
        cases h
      | ok actLen =>
        have hread' : readNtoh (src ++ tail) 2 2 = .ok actLen :=
          Extends.readNtoh 2 2 src tail actLen hread
        rw [hread] at h
        rw [hread']
        dsimp only at h ⊢
        split at h
        · cases h
        · next hfits =>
          rw [if_neg hfits]
          obtain ⟨m, hm, h⟩ := bind_eq_ok.mp h
          rw [List.drop_append]
          exact bind_eq_ok.mpr ⟨m, ih _ (by omega) _ _ m hm, h⟩
    · next hshort =>
      rw [if_neg hshort]
      exact h

theorem extends_counted (fresh : Nat → Bytes) (n len : Nat) :
    Extends fun src => unpackCounted fresh n src len := by
  induction n generalizing len with
  | zero => exact .const _
  | succ n ih =>
    refine (extends_action (fresh n) len).bind fun r => (Extends.readNtoh 2 2).bind fun k => ?_
    exact ((ih r.2).drop k).bind fun _ => .const _

theorem extends_actions (fresh : Nat → Bytes) (len : Nat) :
    Extends fun src => unpackActions fresh src len :=
  (extends_count len).bind fun n => extends_counted fresh n len

end Memory

section Reads

/-! ## Reading numbers -/

variable {src : Bytes} {off k n : Nat}

/-- The bytes of a number are read as the number. -/
theorem readNtoh_of_bytes (hk : 0 < k) (hbytes : (src.drop off).take k = beBytes k n)
    (hn : n < 256 ^ k) : readNtoh src off k = .ok n := by
  have hlen := congrArg List.length hbytes
  rw [List.length_take, List.length_drop, beBytes_length] at hlen
  unfold readNtoh memcpy
  rw [if_pos (by omega), hbytes]
  exact congrArg Except.ok (beNat_beBytes_of_lt hn)

theorem numbersAt_ok {fields : List (Nat × Nat)} {numbers : List Nat}
    (h : List.Forall₂ (fun f n => readNtoh src f.1 f.2 = .ok n) fields numbers) :
    numbersAt src fields = .ok numbers := by
  unfold numbersAt
  induction h with
  | nil => rfl
  | cons hread _ ih =>
    rw [List.mapM_cons, hread, ok_bind, ih]
    rfl

theorem reject_neg {c : Prop} [Decidable c] (h : ¬c) (e : UnpackError) : reject c e = .ok () :=
  if_neg h

end Reads

section Actions

/-! ## Actions -/

namespace AnyAction

def toOfl : AnyAction → OflAction
  | known a _ => a
  | experimenter => .untyped
  | other _ _ => .untyped

/-- An action as it is to be sent. -/
def wire (a : AnyAction) : Bytes := (oflActionsPack [] a.toOfl).getD []

def WellFormed (a : AnyAction) : Prop := a.toOfl.WellFormed

theorem wire_eq {a : AnyAction} (h : a.WellFormed) : oflActionsPack [] a.toOfl = some a.wire := by
  obtain ⟨bytes, hpack, -⟩ := packedAs_pack h []
  rw [wire, hpack]
  rfl

theorem sound {a : AnyAction} (h : a.WellFormed) : a.Sound := by
  cases a with
  | known a readable =>
    cases a with
    | setField field value =>
      obtain ⟨⟨f, hf, rfl, hmask⟩, -⟩ := h
      exact List.mem_cons_of_mem _ (unmasked_mem_sizes hf hmask)
    | _ => trivial
  | experimenter => exact h
  | other => exact h

theorem ofpLen_wire {a : AnyAction} (h : a.WellFormed) : a.ofpLen = a.wire.length := by
  obtain ⟨bytes, hpack, hlen, -⟩ := packedAs_pack h []
  have hwire : a.wire = bytes := Option.some.inj ((wire_eq h).symm.trans hpack)
  rw [hwire]
  cases a with
  | known a readable =>
    change ((oflActionsOfpLen a).getD 0 : Int) = _
    rw [show oflActionsOfpLen a = _ from hlen]
    rfl
  | experimenter => exact absurd h id
  | other => exact absurd h id

/-- `ofl_actions_pack` leaves an action as it is to be sent. -/
theorem leaves {a : AnyAction} (h : a.WellFormed) :
    Leaves a.pack.1 a.wire ∧ a.pack.2 = a.wire.length := by
  refine ⟨?_, (exact_of_sound (sound h)).returned.trans (ofpLen_wire h)⟩
  have hfills : Fills noPad a.ofpLen a.pack.1 := (exact_of_sound (sound h)).fills
  have hlen := ofpLen_wire h
  cases a with
  | known a readable =>
    cases a with
    | setField field value =>
      have hwire := Option.some.inj ((wire_eq h).symm.trans (oflActionsPack_setField []))
      obtain ⟨⟨f, hf, rfl, hmask⟩, hvalue⟩ := h
      have hsize := unmasked_mem_sizes hf hmask
      have hstores : (known (.setField f.header value) readable).pack.1 =
          [⟨0, beBytes 2 25⟩, ⟨4, zeros 4⟩, ⟨2, beBytes 2 (8 + roundUp (oxmLength f.header) 8)⟩,
            ⟨4, beBytes 4 f.header.toNat⟩] ++ shift 8 (row 0 [packSetFieldValue f.header value [],
              zeros (roundUp (oxmLength f.header) 8 - oxmLength f.header)]) := by
        have hpayload := (packSetFieldValue_spec hvalue hsize []).2
        change [_, _] ++ ([_, _] ++ setFieldValueStores f.header value ++ _) = _
        rw [setFieldValueStores_of_mem hsize, row, row, row, hpayload]
        simp only [List.cons_append, List.nil_append, shift, List.map_cons, List.map_nil,
          Store.shift, Int.zero_add, Int.add_comm 8]
        rfl
      have hhead : Leaves [⟨0, beBytes 2 25⟩, ⟨4, zeros 4⟩,
          ⟨2, beBytes 2 (8 + roundUp (oxmLength f.header) 8)⟩, ⟨4, beBytes 4 f.header.toNat⟩]
          (beBytes 2 25 ++ (beBytes 2 (8 + roundUp (oxmLength f.header) 8) ++
            beBytes 4 f.header.toNat)) :=
        leaves_of_fills (fills_of_tiles (k := 8) rfl) rfl rfl
      have hall : Leaves (_ ++ shift 8 (row 0 [packSetFieldValue f.header value [],
          zeros (roundUp (oxmLength f.header) 8 - oxmLength f.header)])) _ :=
        hhead.append (leaves_row _)
      rw [hstores, hwire, setFieldBytes]
      simpa only [List.append_assoc, List.flatten_cons, List.flatten_nil, List.append_nil,
        List.drop_nil, zeros] using hall
    | untyped => exact absurd h id
    | output port maxLen => exact leaves_of_fills hfills hlen rfl
    | header type => exact leaves_of_fills hfills hlen rfl
    | setMplsTtl ttl => exact leaves_of_fills hfills hlen rfl
    | push type ethertype => exact leaves_of_fills hfills hlen rfl
    | popMpls ethertype => exact leaves_of_fills hfills hlen rfl
    | setQueue queueId => exact leaves_of_fills hfills hlen rfl
    | group groupId => exact leaves_of_fills hfills hlen rfl
    | setNwTtl ttl => exact leaves_of_fills hfills hlen rfl
  | experimenter => exact absurd h id
  | other => exact absurd h id

end AnyAction

variable {actions : List AnyAction}

/-- Actions as they are to be sent. -/
def actionsWire (actions : List AnyAction) : Bytes := actions.flatMap AnyAction.wire

/-- What comes back of them. -/
def actionsBack (actions : List AnyAction) : List OflAction := actions.map fun a => a.toOfl.carried

theorem leaves_actions (h : ∀ a ∈ actions, a.WellFormed) :
    Leaves (packLoop AnyAction.pack 0 actions) (actionsWire actions) :=
  leaves_packLoop fun a ha => AnyAction.leaves (h a ha)

theorem actionsTotalLen_wire (h : ∀ a ∈ actions, a.WellFormed) :
    actionsTotalLen actions = (actionsWire actions).length :=
  sum_announced fun a ha => AnyAction.ofpLen_wire (h a ha)

theorem packActions_wire (h : ∀ a ∈ actions, a.WellFormed) :
    packActions [] (actions.map AnyAction.toOfl) = some (actionsWire actions) := by
  induction actions with
  | nil => rfl
  | cons a actions ih =>
    obtain ⟨ha, has⟩ := List.forall_mem_cons.mp h
    rw [List.map_cons, packActions, AnyAction.wire_eq ha]
    change (packActions (List.drop a.wire.length []) (actions.map AnyAction.toOfl) >>= _) = _
    rw [List.drop_nil, ih has]
    rfl

/-- The actions in front of other memory come back. -/
theorem unpackActions_wire (h : ∀ a ∈ actions, a.WellFormed)
    (hlt : (actionsWire actions).length < 2 ^ 16) (fresh : Nat → Bytes) (rest : Bytes) :
    unpackActions fresh (actionsWire actions ++ rest) (actionsWire actions).length =
      .ok (actionsBack actions, 0) := by
  have hwire := packActions_wire h
  have hfits : FitsMemory [] (actions.map AnyAction.toOfl) := by
    intro wire hpack
    rw [← Option.some.inj (hwire.symm.trans hpack)]
    omega
  obtain ⟨wire, hpack, hback⟩ :=
    unpackActions_packActions (List.forall_mem_map.mpr h) fresh hfits
  rw [← Option.some.inj (hwire.symm.trans hpack), List.map_map] at hback
  exact extends_actions fresh _ _ rest _ hback

end Actions

section Lists

/-! ## Lists of records -/

variable {α γ : Type} {L : Layout UInt8 UnpackError} {bad : UnpackError} {limit : Nat}
  {unpack : Bytes → Nat → Unpack (α × Nat)} {wire : γ → Bytes} {back : γ → α} {as : List γ}

/-- Records that are all that is announced come back. -/
theorem unpackRecords_wires (hstep : 0 < L.step) (htells : ∀ a ∈ as, L.Tells (wire a))
    (htakes : ∀ a ∈ as, Takes limit unpack (wire a) (back a)) (rest : Bytes)
    (hlt : (as.flatMap wire).length < limit) :
    unpackRecords L bad (fun _ => unpack) (as.flatMap wire ++ rest) (as.flatMap wire).length
      (as.flatMap wire).length = .ok (as.map back, 0) :=
  bind_eq_ok.mpr ⟨_, Layout.count_wires hstep htells rest,
    unpackAll_wires_all htells htakes rest hlt⟩

/-- A type, a length and what follows. -/
def record (type : Nat) (body : Bytes) : Bytes :=
  beBytes 2 type ++ (beBytes 2 (4 + body.length) ++ body)

variable {type : Nat} {body : Bytes}

@[simp] theorem record_length (type : Nat) (body : Bytes) :
    (record type body).length = 4 + body.length := by
  simp only [record, List.length_append, beBytes_length]
  omega

theorem record_type (h : type < 2 ^ 16) (rest : Bytes) :
    readNtoh (record type body ++ rest) 0 2 = .ok type :=
  readNtoh_of_bytes (by decide) rfl h

theorem record_len (h : 4 + body.length < 2 ^ 16) (rest : Bytes) :
    readNtoh (record type body ++ rest) 2 2 = .ok (record type body).length := by
  rw [record_length]
  exact readNtoh_of_bytes (by decide) rfl h

/-- The type and the padding of a header, and a row from the length on. -/
theorem leaves_record {bss : List Bytes} (hbss : 4 ≤ bss.flatten.length) :
    Leaves ([⟨0, beBytes 2 type⟩, ⟨4, zeros 4⟩] ++
        row 2 (beBytes 2 (4 + bss.flatten.length) :: bss)) (record type bss.flatten) := by
  have hrow : Leaves ([⟨2, zeros 4⟩] ++ row 0 (beBytes 2 (4 + bss.flatten.length) :: bss))
      (beBytes 2 (4 + bss.flatten.length) :: bss).flatten := by
    refine (leaves_row _).over fun s hs => ?_
    rw [List.mem_singleton.mp hs, List.flatten_cons, List.length_append, beBytes_length]
    unfold Store.stop
    simp only [zeros, List.length_replicate]
    omega
  have htype : Leaves [⟨0, beBytes 2 type⟩] (beBytes 2 type) := by
    have hone := leaves_row [beBytes 2 type]
    rwa [List.flatten_singleton] at hone
  have hall : Leaves ([⟨0, beBytes 2 type⟩] ++ shift 2 ([⟨2, zeros 4⟩] ++
      row 0 (beBytes 2 (4 + bss.flatten.length) :: bss))) _ := htype.append hrow
  rw [shift_append, shift_row] at hall
  exact hall

end Lists

section Instructions

/-! ## Instructions -/

namespace AnyInstruction

/-- What follows the type and the length. -/
def payload : AnyInstruction → Bytes
  | gotoTable tableId => beBytes 1 tableId ++ zeros 3
  | writeMetadata metadata metadataMask => zeros 4 ++ (beBytes 8 metadata ++ beBytes 8 metadataMask)
  | writeActions actions | applyActions actions => zeros 4 ++ actionsWire actions
  | clearActions => zeros 4
  | meter meterId => beBytes 4 meterId
  | experimenter => []
  | other _ _ => []

/-- An instruction as it is to be sent. -/
def wire (i : AnyInstruction) : Bytes := record i.typeNo i.payload

/-- The parameters have the widths of the fields and pass the checks of the decoder, and the
length can be told. -/
def WellFormed : AnyInstruction → Prop
  | gotoTable tableId => tableId < 0xff
  | writeMetadata metadata metadataMask => metadata < 2 ^ 64 ∧ metadataMask < 2 ^ 64
  | writeActions actions | applyActions actions =>
    (∀ a ∈ actions, a.WellFormed) ∧ 8 + (actionsWire actions).length < 2 ^ 16
  | clearActions => True
  | meter meterId => meterId < 2 ^ 32
  | experimenter => False
  | other _ _ => False

/-- The instruction that comes back. -/
def back : AnyInstruction → Instruction
  | gotoTable tableId => .plain 1 [tableId]
  | writeMetadata metadata metadataMask => .plain 2 [metadata, metadataMask]
  | writeActions actions => .actions 3 (actionsBack actions)
  | applyActions actions => .actions 4 (actionsBack actions)
  | clearActions => .plain 5 []
  | meter meterId => .plain 6 [meterId]
  | experimenter => .plain ofpitExperimenter []
  | other type _ => .plain type []

variable {i : AnyInstruction} {actions : List AnyAction}

theorem typeNo_lt (h : i.WellFormed) : i.typeNo < 2 ^ 16 := by
  cases i with
  | experimenter => exact absurd h id
  | other => exact absurd h id
  | _ => exact of_decide_eq_true rfl

theorem payload_length (h : i.WellFormed) :
    4 ≤ i.payload.length ∧ 4 + i.payload.length < 2 ^ 16 := by
  cases i with
  | experimenter => exact absurd h id
  | other => exact absurd h id
  | writeActions actions | applyActions actions =>
    have hlt := h.2
    simp only [payload, List.length_append, zeros, List.length_replicate]
    omega
  | gotoTable | writeMetadata | clearActions | meter => exact of_decide_eq_true rfl

theorem sound (h : i.WellFormed) : i.Sound := by
  cases i with
  | experimenter => exact absurd h id
  | other => exact absurd h id
  | writeActions actions | applyActions actions => exact fun a ha => AnyAction.sound (h.1 a ha)
  | gotoTable | writeMetadata | clearActions | meter => trivial

theorem ofpLen_wire (h : i.WellFormed) : i.ofpLen = i.wire.length := by
  rw [wire, record_length]
  cases i with
  | experimenter => exact absurd h id
  | other => exact absurd h id
  | writeActions actions | applyActions actions =>
    simp only [ofpLen, actionsTotalLen_wire h.1, payload, List.length_append, zeros,
      List.length_replicate]
    omega
  | gotoTable | writeMetadata | clearActions | meter => rfl

/-- The header of an instruction with actions, and these behind it. -/
theorem leaves_withActions (h : ∀ a ∈ actions, a.WellFormed)
    (hlt : 8 + (actionsWire actions).length < 2 ^ 16) (type : Nat) :
    Leaves ([⟨0, beBytes 2 type⟩, ⟨4, zeros 4⟩] ++ (packActionsBody actions).1)
      (record type (zeros 4 ++ actionsWire actions)) := by
  have hfield : field 2 (8 + actionsTotalLen actions) =
      beBytes 2 (8 + (actionsWire actions).length) := by
    rw [actionsTotalLen_wire h]
    exact field_of_lt hlt
  have hhead : Leaves [⟨0, beBytes 2 type⟩, ⟨4, zeros 4⟩,
      ⟨2, beBytes 2 (8 + (actionsWire actions).length)⟩, ⟨4, zeros 4⟩]
      (beBytes 2 type ++ (beBytes 2 (8 + (actionsWire actions).length) ++ zeros 4)) :=
    leaves_of_fills (fills_of_tiles (k := 8) rfl) rfl rfl
  have hall : Leaves (_ ++ shift 8 (packLoop AnyAction.pack 0 actions)) _ :=
    hhead.append (leaves_actions h)
  have hlength : 4 + (zeros 4 ++ actionsWire actions).length =
      8 + (actionsWire actions).length := by
    rw [List.length_append, zeros, List.length_replicate]
    omega
  rw [packActionsBody, hfield, packLoop_eq_shift, record, hlength]
  simpa only [List.cons_append, List.nil_append, List.append_assoc] using hall

/-- `ofl_structs_instructions_pack` leaves an instruction as it is to be sent. -/
theorem leaves (h : i.WellFormed) : Leaves i.pack.1 i.wire ∧ i.pack.2 = i.wire.length := by
  refine ⟨?_, (exact_of_sound (sound h)).returned.trans (ofpLen_wire h)⟩
  cases i with
  | experimenter => exact absurd h id
  | other => exact absurd h id
  | writeActions actions => exact leaves_withActions h.1 h.2 3
  | applyActions actions => exact leaves_withActions h.1 h.2 4
  | gotoTable tableId => exact @leaves_record 1 [beBytes 1 tableId, zeros 3] (Nat.le_refl 4)
  | writeMetadata metadata metadataMask =>
    exact @leaves_record 2 [zeros 4, beBytes 8 metadata, beBytes 8 metadataMask]
      (Nat.le_add_right 4 16)
  | clearActions => exact @leaves_record 5 [zeros 4] (Nat.le_refl 4)
  | meter meterId => exact @leaves_record 6 [beBytes 4 meterId] (Nat.le_refl 4)

theorem tells (h : i.WellFormed) : instructionLayout.Tells i.wire := by
  obtain ⟨hle, hlt⟩ := payload_length h
  have hlen : 4 ≤ i.wire.length := by
    rw [wire, record_length]
    omega
  exact ⟨hlen, hlen, record_len hlt⟩

theorem plainInstruction_ok {type size : Nat} {short : UnpackError} {src : Bytes}
    {fields : List (Nat × Nat)} {ns : List Nat}
    (h : List.Forall₂ (fun f n => readNtoh src f.1 f.2 = .ok n) fields ns) :
    plainInstruction type size short src fields size = .ok (.plain type ns, 0) := by
  refine bind_eq_ok.mpr ⟨(), reject_neg (Nat.lt_irrefl _) _, ?_⟩
  refine bind_eq_ok.mpr ⟨ns, numbersAt_ok h, ?_⟩
  rw [Nat.sub_self]
  rfl

/-- The case of its type reads the instruction to its end. -/
theorem instructionBody_wire (h : i.WellFormed) (fresh : Bytes → Nat → Bytes) (rest : Bytes) :
    instructionBody fresh i.typeNo (i.wire ++ rest) i.wire.length = .ok (i.back, 0) := by
  have hactions (type : Nat) (actions : List AnyAction) (hwell : ∀ a ∈ actions, a.WellFormed)
      (hlt : 8 + (actionsWire actions).length < 2 ^ 16) :
      unpackActions (fresh (record type (zeros 4 ++ actionsWire actions) ++ rest))
        ((record type (zeros 4 ++ actionsWire actions) ++ rest).drop 8)
        ((record type (zeros 4 ++ actionsWire actions)).length - 8) =
          .ok (actionsBack actions, 0) := by
    have hlength : (record type (zeros 4 ++ actionsWire actions)).length - 8 =
        (actionsWire actions).length := by
      rw [record_length, List.length_append, zeros, List.length_replicate]
      omega
    rw [hlength]
    exact unpackActions_wire hwell (by omega) _ _
  have hlong : ¬i.wire.length < 8 := by
    rw [wire, record_length]
    have hle := (payload_length h).1
    omega
  cases i with
  | experimenter => exact absurd h id
  | other => exact absurd h id
  | writeActions actions =>
    refine bind_eq_ok.mpr ⟨(), reject_neg hlong _, ?_⟩
    exact bind_eq_ok.mpr ⟨_, hactions 3 actions h.1 h.2, rfl⟩
  | applyActions actions =>
    refine bind_eq_ok.mpr ⟨(), reject_neg hlong _, ?_⟩
    exact bind_eq_ok.mpr ⟨_, hactions 4 actions h.1 h.2, rfl⟩
  | gotoTable tableId =>
    have hread : readNtoh ((gotoTable tableId).wire ++ rest) 4 1 = .ok tableId :=
      readNtoh_of_bytes (by decide) rfl (Nat.lt_trans h (by decide))
    refine bind_eq_ok.mpr ⟨(), reject_neg hlong _, bind_eq_ok.mpr ⟨tableId, hread, ?_⟩⟩
    refine bind_eq_ok.mpr ⟨(), reject_neg (Nat.ne_of_lt h) _, ?_⟩
    exact bind_eq_ok.mpr ⟨_, numbersAt_ok (.cons hread .nil), rfl⟩
  | writeMetadata metadata metadataMask =>
    refine plainInstruction_ok (.cons ?_ (.cons ?_ .nil))
    · exact readNtoh_of_bytes (by decide) rfl h.1
    · exact readNtoh_of_bytes (by decide) rfl h.2
  | clearActions => exact plainInstruction_ok .nil
  | meter meterId =>
    refine plainInstruction_ok (.cons ?_ .nil)
    exact readNtoh_of_bytes (by decide) rfl h

/-- `ofl_structs_instructions_unpack` takes an instruction off the memory. -/
theorem takes (h : i.WellFormed) (fresh : Bytes → Nat → Bytes) :
    Takes (2 ^ 64) (oflStructsInstructionsUnpack fresh) i.wire i.back := by
  intro rest len hle _ hlt
  obtain ⟨hlong, hshort⟩ := payload_length h
  have hlen := record_length i.typeNo i.payload
  change i.wire.length = _ at hlen
  refine bind_eq_ok.mpr ⟨(), reject_neg (by omega) _, ?_⟩
  refine bind_eq_ok.mpr ⟨_, record_len hshort rest, ?_⟩
  refine bind_eq_ok.mpr ⟨(), reject_neg (Nat.not_lt.mpr hle) _, ?_⟩
  refine bind_eq_ok.mpr ⟨_, record_type (typeNo_lt h) rest, ?_⟩
  refine bind_eq_ok.mpr ⟨_, instructionBody_wire h fresh rest, ?_⟩
  refine bind_eq_ok.mpr ⟨(), reject_neg (not_not.mpr rfl) _, ?_⟩
  exact congrArg (fun n => Except.ok (i.back, n)) (sizeSub_eq hlt hle)

end AnyInstruction

end Instructions

section Buckets

/-! ## Buckets -/

namespace AnyBucket

/-- A bucket as it is to be sent. -/
def wire (b : AnyBucket) : Bytes :=
  beBytes 2 (16 + (actionsWire b.actions).length) ++ (beBytes 2 b.weight ++ (beBytes 4 b.watchPort ++
    (beBytes 4 b.watchGroup ++ (zeros 4 ++ actionsWire b.actions))))

/-- The bucket may be one of a group of this type: there is a weight if one is selected by it. -/
structure WellFormed (gtype : Nat) (b : AnyBucket) : Prop where
  actions : ∀ a ∈ b.actions, a.WellFormed
  short : 16 + (actionsWire b.actions).length < 2 ^ 16
  weight : b.weight < 2 ^ 16
  watchPort : b.watchPort < 2 ^ 32
  watchGroup : b.watchGroup < 2 ^ 32
  weighted : gtype = ofpgtSelect ↔ b.weight ≠ 0

/-- The bucket that comes back. -/
def back (b : AnyBucket) : Bucket :=
  ⟨[b.weight, b.watchPort, b.watchGroup], actionsBack b.actions⟩

variable {b : AnyBucket} {gtype : Nat}

theorem wire_length (b : AnyBucket) : b.wire.length = 16 + (actionsWire b.actions).length := by
  simp only [wire, List.length_append, beBytes_length, zeros, List.length_replicate]
  omega

theorem ofpLen_wire (h : b.WellFormed gtype) : b.ofpLen = b.wire.length := by
  have hmod := actionsTotalLen_mod fun a ha => AnyAction.sound (h.actions a ha)
  have halign : b.align = 0 := if_pos (by unfold unalignedLen; omega)
  rw [ofpLen, halign, unalignedLen, actionsTotalLen_wire h.actions, wire_length]
  omega

/-- `ofl_structs_bucket_pack` leaves a bucket as it is to be sent. -/
theorem leaves (h : b.WellFormed gtype) : Leaves b.pack.1 b.wire ∧ b.pack.2 = b.wire.length := by
  refine ⟨?_, ofpLen_wire h⟩
  have hlen := ofpLen_wire h
  rw [wire_length] at hlen
  have halign : b.align = 0 := by
    have hmod := actionsTotalLen_mod fun a ha => AnyAction.sound (h.actions a ha)
    exact if_pos (by unfold unalignedLen; omega)
  have hend : b.loopEnd = (16 + (actionsWire b.actions).length : Nat) := by
    rw [loopEnd, sum_announced fun a ha => (AnyAction.leaves (h.actions a ha)).2]
    rfl
  have hfield : AnyInstruction.field 2 b.ofpLen =
      beBytes 2 (16 + (actionsWire b.actions).length) := by
    rw [hlen]
    exact field_of_lt h.short
  have hhead : Leaves [⟨0, beBytes 2 (16 + (actionsWire b.actions).length)⟩,
      ⟨2, beBytes 2 b.weight⟩, ⟨4, beBytes 4 b.watchPort⟩, ⟨8, beBytes 4 b.watchGroup⟩, ⟨12, zeros 4⟩]
      (beBytes 2 (16 + (actionsWire b.actions).length) ++ (beBytes 2 b.weight ++
        (beBytes 4 b.watchPort ++ (beBytes 4 b.watchGroup ++ zeros 4)))) :=
    leaves_row [beBytes 2 (16 + (actionsWire b.actions).length), beBytes 2 b.weight,
      beBytes 4 b.watchPort, beBytes 4 b.watchGroup, zeros 4]
  have hnone : Leaves [⟨0, zeros 0⟩] [] :=
    leaves_of_fills (fills_of_tiles (k := 0) rfl) rfl rfl
  have hloop : Leaves (_ ++ shift 16 (packLoop AnyAction.pack 0 b.actions)) _ :=
    hhead.append (leaves_actions h.actions)
  have hall := hloop.append hnone
  have hlength : (beBytes 2 (16 + (actionsWire b.actions).length) ++ (beBytes 2 b.weight ++
      (beBytes 4 b.watchPort ++ (beBytes 4 b.watchGroup ++ zeros 4))) ++
        actionsWire b.actions).length = 16 + (actionsWire b.actions).length := by
    simp only [List.length_append, beBytes_length, zeros, List.length_replicate]
  rw [hlength] at hall
  rw [pack, hfield, packLoop_eq_shift, halign, hend, wire]
  simpa only [List.append_assoc, List.append_nil, shift, Store.shift, List.map_cons, List.map_nil,
    Int.zero_add, Int.toNat_zero] using hall

theorem wire_len (h : b.WellFormed gtype) (rest : Bytes) :
    readNtoh (b.wire ++ rest) 0 2 = .ok b.wire.length := by
  rw [wire_length]
  exact readNtoh_of_bytes (by decide) rfl h.short

theorem tells (h : b.WellFormed gtype) : bucketLayout.Tells b.wire := by
  have hlen : 16 ≤ b.wire.length := by
    rw [wire_length]
    exact Nat.le_add_right _ _
  exact ⟨hlen, hlen, wire_len h⟩

/-- `ofl_structs_bucket_unpack` takes a bucket off the memory. -/
theorem takes (h : b.WellFormed gtype) (fresh : Bytes → Nat → Bytes) :
    Takes (2 ^ 64) (oflStructsBucketUnpack fresh gtype) b.wire b.back := by
  intro rest len hle _ hlt
  have hlen := b.wire_length
  have hweight : readNtoh (b.wire ++ rest) 2 2 = .ok b.weight :=
    readNtoh_of_bytes (by decide) rfl h.weight
  have hport : readNtoh (b.wire ++ rest) 4 4 = .ok b.watchPort :=
    readNtoh_of_bytes (by decide) rfl h.watchPort
  have hgroup : readNtoh (b.wire ++ rest) 8 4 = .ok b.watchGroup :=
    readNtoh_of_bytes (by decide) rfl h.watchGroup
  have hselect : ¬(gtype = ofpgtSelect ∧ b.weight = 0) := fun hs => h.weighted.mp hs.1 hs.2
  have hother : ¬(gtype ≠ ofpgtSelect ∧ 0 < b.weight) := fun hs =>
    hs.1 (h.weighted.mpr (Nat.ne_of_gt hs.2))
  have hactions : unpackActions (fresh (b.wire ++ rest)) ((b.wire ++ rest).drop 16)
      (sizeSub b.wire.length 16) = .ok (actionsBack b.actions, 0) := by
    have hshort := h.short
    rw [sizeSub_eq (by omega) (by omega), hlen, Nat.add_sub_cancel_left]
    exact unpackActions_wire h.actions (by omega) _ _
  refine bind_eq_ok.mpr ⟨(), reject_neg (by omega) _, ?_⟩
  refine bind_eq_ok.mpr ⟨_, wire_len h rest, ?_⟩
  refine bind_eq_ok.mpr ⟨(), reject_neg (Nat.not_lt.mpr hle) _, ?_⟩
  refine bind_eq_ok.mpr ⟨_, hweight, ?_⟩
  refine bind_eq_ok.mpr ⟨(), reject_neg hselect _, bind_eq_ok.mpr ⟨(), reject_neg hother _, ?_⟩⟩
  refine bind_eq_ok.mpr ⟨_, numbersAt_ok (.cons hweight (.cons hport (.cons hgroup .nil))), ?_⟩
  refine bind_eq_ok.mpr ⟨_, hactions, bind_eq_ok.mpr ⟨(), reject_neg (by decide) _, ?_⟩⟩
  exact congrArg (fun n => Except.ok (b.back, n)) (sizeSub_eq hlt hle)

end AnyBucket

end Buckets

section Bands

/-! ## Meter bands -/

namespace AnyBand

/-- What follows the rate and the size of the burst. -/
def tail (b : AnyBand) : Bytes :=
  match b.body with
  | .drop => zeros 4
  | .dscpRemark precLevel => beBytes 1 precLevel ++ zeros 3
  | .experimenter experimenter => beBytes 4 experimenter
  | .other _ _ => []

/-- A band as it is to be sent. -/
def wire (b : AnyBand) : Bytes :=
  record b.typeNo (beBytes 4 b.rate ++ (beBytes 4 b.burstSize ++ b.tail))

/-- The numbers behind the type and the length. -/
def numbers (b : AnyBand) : List Nat :=
  match b.body with
  | .dscpRemark precLevel => [b.rate, b.burstSize, precLevel]
  | .experimenter experimenter => [b.rate, b.burstSize, experimenter]
  | _ => [b.rate, b.burstSize]

structure WellFormed (b : AnyBand) : Prop where
  rate : b.rate < 2 ^ 32
  burstSize : b.burstSize < 2 ^ 32
  body : match b.body with
    | .drop => True
    | .dscpRemark precLevel => precLevel < 2 ^ 8
    | .experimenter experimenter => experimenter < 2 ^ 32
    | .other _ _ => False

/-- The band that comes back. -/
def back (b : AnyBand) : Option MeterBand := some ⟨b.typeNo, b.numbers⟩

variable {b : AnyBand}

/-- `ofl_structs_meter_band_pack` leaves a band as it is to be sent. -/
theorem leaves (h : b.WellFormed) : Leaves b.pack.1 b.wire ∧ b.pack.2 = b.wire.length := by
  obtain ⟨rate, burstSize, body⟩ := b
  cases body with
  | other => exact absurd h.body id
  | drop => exact ⟨leaves_of_fills (fills_of_tiles (k := 16) rfl) rfl rfl, rfl⟩
  | dscpRemark => exact ⟨leaves_of_fills (fills_of_tiles (k := 16) rfl) rfl rfl, rfl⟩
  | experimenter => exact ⟨leaves_of_fills (fills_of_tiles (k := 16) rfl) rfl rfl, rfl⟩

theorem ofpLen_wire (h : b.WellFormed) : b.ofpLen = b.wire.length := by
  obtain ⟨rate, burstSize, body⟩ := b
  cases body with
  | other => exact absurd h.body id
  | _ => rfl

theorem wire_length (h : b.WellFormed) : b.wire.length = 16 := by
  obtain ⟨rate, burstSize, body⟩ := b
  cases body with
  | other => exact absurd h.body id
  | _ => rfl

theorem wire_len (h : b.WellFormed) (rest : Bytes) :
    readNtoh (b.wire ++ rest) 2 2 = .ok b.wire.length := by
  have hlen := wire_length h
  rw [wire, record_length] at hlen
  exact record_len (by omega) rest

theorem tells (h : b.WellFormed) : meterBandLayout.Tells b.wire :=
  ⟨(wire_length h).ge, Nat.le_trans (by decide) (wire_length h).ge, wire_len h⟩

theorem meterBandBody_wire (h : b.WellFormed) (rest : Bytes) :
    meterBandBody b.typeNo (b.wire ++ rest) = .ok b.back := by
  have hrate : readNtoh (b.wire ++ rest) 4 4 = .ok b.rate :=
    readNtoh_of_bytes (by decide) rfl h.rate
  have hburst : readNtoh (b.wire ++ rest) 8 4 = .ok b.burstSize :=
    readNtoh_of_bytes (by decide) rfl h.burstSize
  obtain ⟨rate, burstSize, body⟩ := b
  cases body with
  | other => exact absurd h.body id
  | drop => exact bind_eq_ok.mpr ⟨_, numbersAt_ok (.cons hrate (.cons hburst .nil)), rfl⟩
  | dscpRemark precLevel =>
    refine bind_eq_ok.mpr ⟨_, numbersAt_ok (.cons hrate (.cons hburst (.cons ?_ .nil))), rfl⟩
    exact readNtoh_of_bytes (by decide) rfl h.body
  | experimenter experimenter =>
    refine bind_eq_ok.mpr ⟨_, numbersAt_ok (.cons hrate (.cons hburst (.cons ?_ .nil))), rfl⟩
    exact readNtoh_of_bytes (by decide) rfl h.body

/-- `ofl_structs_meter_band_unpack` takes a band off the memory. -/
theorem takes (h : b.WellFormed) : Takes (2 ^ 64) oflStructsMeterBandUnpack b.wire b.back := by
  intro rest len hle _ hlt
  have hlen := wire_length h
  have htype : readNtoh (b.wire ++ rest) 0 2 = .ok b.typeNo := by
    refine record_type ?_ rest
    obtain ⟨rate, burstSize, body⟩ := b
    cases body with
    | other => exact absurd h.body id
    | _ => exact of_decide_eq_true rfl
  refine bind_eq_ok.mpr ⟨(), reject_neg (by omega) _, bind_eq_ok.mpr ⟨_, htype, ?_⟩⟩
  refine bind_eq_ok.mpr ⟨_, meterBandBody_wire h rest, bind_eq_ok.mpr ⟨_, wire_len h rest, ?_⟩⟩
  exact congrArg (fun n => Except.ok (b.back, n)) (sizeSub_eq hlt hle)

end AnyBand

end Bands

end Nox.Ofl
