import Nox.Ofl.Packing
import Nox.Ofl.SetField
import Nox.Oxm.RoundTrip

/-!
# Announced and written sizes

The length functions size the buffers, and the pack functions write into them.  The two
agree on every structure whose type has a case, but for a `set_field` whose value is of a
size the packer has no case for and a match whose length is not that of its entries
(`agrees_iff`).  An experimenter announces `-1`, and of every structure the header is
written before its type is looked at.
-/

namespace Nox.Ofl

open Oxm Stores

section Property

/-! ## Agreement -/

/-- The packer writes just the bytes that are announced. -/
def AnyAction.Fits (a : AnyAction) : Prop := Fills noPad a.ofpLen a.pack.1

def AnyInstruction.Fits (i : AnyInstruction) : Prop :=
  (∀ a ∈ i.actions, a.Fits) ∧ Fills noPad i.ofpLen i.pack.1

def AnyBucket.Fits (b : AnyBucket) : Prop :=
  (∀ a ∈ b.actions, a.Fits) ∧ Fills noPad b.ofpLen b.pack.1

def AnyBand.Fits (b : AnyBand) : Prop := Fills noPad b.ofpLen b.pack.1

/-- The number of bytes `ofl_structs_match_pack` writes. -/
def AnyMatch.writtenLen (m : AnyMatch) : Nat :=
  if m.toOflMatch.length = 0 then 4 else 4 + m.oxmFields.length

/-- The padding a match is declared to have: its length is rounded up to eight. -/
def AnyMatch.pad (m : AnyMatch) (i : Int) : Prop :=
  m.writtenLen ≤ i ∧ i < roundUp m.writtenLen 8

def AnyMatch.Fits (m : AnyMatch) : Prop := Fills m.pad m.ofpLen m.pack.1

/-- What a flow modification leaves for its match. -/
def FlowMod.matchRoom (m : FlowMod) : Int := m.matchEnd - 48

/-- Every structure in the message fits, the match fits the room that is left for it, and
the message is written to its buffer, but for the padding of the match. -/
def FlowMod.Fits (m : FlowMod) : Prop :=
  (∀ i ∈ m.instructions, i.Fits) ∧ Fills m.oflMatch.pad m.matchRoom m.oflMatch.pack.1 ∧
    ∀ xid, Fills (fun i => m.oflMatch.pad (i - 48)) m.bufLen (m.pack xid)

def GroupMod.Fits (m : GroupMod) : Prop :=
  (∀ b ∈ m.buckets, b.Fits) ∧ ∀ xid, Fills noPad m.bufLen (m.pack xid)

def MeterMod.Fits (m : MeterMod) : Prop :=
  (∀ b ∈ m.bands, b.Fits) ∧ ∀ xid, Fills noPad m.bufLen (m.pack xid)

end Property

section Condition

/-! ## Sound structures -/

/-- The type has a case that needs no callback, and so has the size of the value of a
`set_field`. -/
def AnyAction.Sound : AnyAction → Prop
  | .known (.setField field _) _ => oxmLength field ∈ 0 :: setFieldSizes
  | .known _ _ => True
  | .experimenter => False
  | .other _ _ => False

def AnyInstruction.Sound : AnyInstruction → Prop
  | .writeActions actions | .applyActions actions => ∀ a ∈ actions, a.Sound
  | .gotoTable _ | .writeMetadata _ _ | .clearActions | .meter _ => True
  | .experimenter => False
  | .other _ _ => False

def AnyBucket.Sound (b : AnyBucket) : Prop := ∀ a ∈ b.actions, a.Sound

def AnyBand.Sound (b : AnyBand) : Prop :=
  match b.body with
  | .drop | .dscpRemark _ | .experimenter _ => True
  | .other _ _ => False

/-- The size of an entry on the wire, which its header tells.  A mask has two bytes at
least; an entry of a size without a case is not written. -/
def entrySize (header : UInt32) : Nat :=
  if wordSize header ∈ writtenSizes then
    4 + wordSize header + (if oxmHasmask header then max 2 (wordSize header) else 0)
  else 0

def AnyMatch.entriesSize (m : AnyMatch) : Nat :=
  (m.toOflMatch.entries.map fun e => entrySize e.header).sum

/-- The match is an OXM match, and up to padding its length is that of its entries. -/
def AnyMatch.Sound (m : AnyMatch) : Prop :=
  m.toOflMatch.type = ofpmtOxm ∧ (m.toOflMatch.length = 0 ∨
    roundUp (4 + m.toOflMatch.length) 8 = roundUp (4 + m.entriesSize) 8)

end Condition

section Actions

/-! ## Actions -/

variable {field : UInt32} {value : Bytes}

theorem packSetFieldValue_length (hsize : oxmLength field ∈ setFieldSizes)
    (hle : oxmLength field ≤ value.length) (old : Bytes) :
    (packSetFieldValue field value old).length = oxmLength field := by
  simp only [setFieldSizes, List.mem_cons, List.not_mem_nil, or_false] at hsize
  unfold packSetFieldValue
  rcases hsize with hk | hk | hk | hk | hk | hk <;> rw [hk] at hle ⊢ <;>
    simp only [List.length_take, leBytes_length]
  case inr.inr.inl =>
    split
    · rw [List.length_take, Nat.min_eq_left hle]
    · exact leBytes_length 4 _
  all_goals exact Nat.min_eq_left hle

theorem setFieldValueStores_of_mem (h : oxmLength field ∈ setFieldSizes) :
    setFieldValueStores field value = [⟨8, packSetFieldValue field value []⟩] := by
  simp only [setFieldSizes, List.mem_cons, List.not_mem_nil, or_false] at h
  unfold setFieldValueStores
  rcases h with hk | hk | hk | hk | hk | hk <;> simp only [hk]

theorem setFieldValueStores_of_not_mem (h : oxmLength field ∉ setFieldSizes) :
    setFieldValueStores field value = [] := by
  simp only [setFieldSizes, List.mem_cons, List.not_mem_nil, or_false, not_or] at h
  unfold setFieldValueStores
  split <;> first | omega | rfl

/-- The stores of a `set_field`, `vs` those of its value. -/
def setFieldStores (field : UInt32) (vs : List Store) : List Store :=
  [⟨0, beBytes 2 ofpatSetField⟩, ⟨4, zeros 4⟩, ⟨2, beBytes 2 (8 + roundUp (oxmLength field) 8)⟩,
    ⟨4, beBytes 4 field.toNat⟩] ++ vs ++
  [⟨8 + oxmLength field, zeros (roundUp (oxmLength field) 8 - oxmLength field)⟩]

theorem fits_setField (readable : (OflAction.setField field value).Readable) :
    (AnyAction.known (.setField field value) readable).Fits ↔
      Fills noPad (8 + roundUp (oxmLength field) 8 : Nat)
        (setFieldStores field (setFieldValueStores field value)) := Iff.rfl

/-- A `set_field` fits when its value is of a size with a case, or has no bytes. -/
theorem fits_setField_iff (readable : (OflAction.setField field value).Readable) :
    (AnyAction.known (.setField field value) readable).Fits ↔
      oxmLength field ∈ 0 :: setFieldSizes := by
  rw [fits_setField, List.mem_cons]
  by_cases hmem : oxmLength field ∈ setFieldSizes
  · refine iff_of_true ?_ (.inr hmem)
    have hlen := packSetFieldValue_length hmem readable []
    have hext : (setFieldStores field (setFieldValueStores field value)).map (·.extent) =
        ([(0, 2), (4, 4), (2, 2), (4, 4), (8, oxmLength field), (8 + (oxmLength field : Int),
          roundUp (oxmLength field) 8 - oxmLength field)] : List (Int × Nat)) := by
      rw [setFieldValueStores_of_mem hmem]
      simp [setFieldStores, Store.extent, zeros, hlen]
    apply fills_of_tiles
    rw [hext]
    generalize oxmLength field = k at hmem
    revert k
    decide
  · rw [setFieldValueStores_of_not_mem hmem, or_iff_left hmem]
    constructor
    · intro h
      by_contra hpos
      obtain ⟨hle, -, -⟩ := roundUp_eight (oxmLength field)
      -- nobody stores the first byte of the value
      obtain ⟨s, hs, hit⟩ := h.covers 8 (by decide) (by omega) id
      simp only [setFieldStores, List.append_nil, List.cons_append, List.nil_append, List.mem_cons,
        List.not_mem_nil, or_false] at hs
      rcases hs with rfl | rfl | rfl | rfl | rfl <;>
        simp only [Store.Hits, Store.stop, beBytes_length, zeros, List.length_replicate] at hit <;>
        omega
    · intro hzero
      have hext : (setFieldStores field []).map (·.extent) =
          [(0, 2), (4, 4), (2, 2), (4, 4), (8, 0)] := by
        simp [setFieldStores, Store.extent, zeros, hzero, roundUp]
      apply fills_of_tiles
      rw [hext, hzero]
      decide

/-- An action fits when it is sound. -/
theorem AnyAction.fits_iff (a : AnyAction) : a.Fits ↔ a.Sound := by
  cases a with
  | known a readable =>
    cases a with
    | setField field value => exact fits_setField_iff readable
    | untyped => exact readable.elim
    | output port maxLen => exact iff_of_true (fills_of_tiles (k := 16) rfl) trivial
    | header | setMplsTtl | push | popMpls | setQueue | group | setNwTtl =>
      exact iff_of_true (fills_of_tiles (k := 8) rfl) trivial
  | experimenter => exact iff_of_false (fun h => absurd h.nonneg (by decide)) id
  | other type noCase =>
    -- the type is stored, though nothing is announced
    refine iff_of_false (fun h => ?_) id
    have hstore := (h.within _ List.mem_cons_self).2
    simp [Store.stop, AnyAction.ofpLen] at hstore

/-- What a sound action returns is what it announces. -/
theorem AnyAction.exact_of_sound {a : AnyAction} (h : a.Sound) : Exact a.ofpLen a.pack := by
  refine ⟨?_, a.fits_iff.mpr h⟩
  cases a with
  | known a readable =>
    cases a with
    | setField field value =>
      have hlt := oxmLength_lt field
      obtain ⟨-, hle, -⟩ := roundUp_eight (oxmLength field)
      simp only [pack, OflAction.packBody, ofpLen, oflActionsOfpLen, Option.getD_some]
      rw [Nat.mod_eq_of_lt (by omega)]
    | untyped => exact readable.elim
    | output | header | setMplsTtl | push | popMpls | setQueue | group | setNwTtl => rfl
  | experimenter => exact h.elim
  | other => exact h.elim

theorem AnyAction.ofpLen_mod {a : AnyAction} (h : a.Sound) : a.ofpLen % 8 = 0 := by
  cases a with
  | known a readable =>
    cases a with
    | setField field value =>
      obtain ⟨-, -, hmod⟩ := roundUp_eight (oxmLength field)
      simp only [ofpLen, oflActionsOfpLen, Option.getD_some]
      omega
    | untyped => exact readable.elim
    | output | header | setMplsTtl | push | popMpls | setQueue | group | setNwTtl =>
      simp [ofpLen, oflActionsOfpLen]
  | experimenter => exact h.elim
  | other => exact h.elim

theorem actionsTotalLen_mod {actions : List AnyAction} (h : ∀ a ∈ actions, a.Sound) :
    actionsTotalLen actions % 8 = 0 := by
  induction actions with
  | nil => rfl
  | cons a actions ih =>
    have hhead := AnyAction.ofpLen_mod (h a List.mem_cons_self)
    have htail := ih fun b hb => h b (List.mem_cons_of_mem a hb)
    simp only [actionsTotalLen, List.map_cons, List.sum_cons] at htail ⊢
    omega

end Actions

section Structures

/-! ## Instructions, buckets and bands -/

theorem fitsAll_iff {actions : List AnyAction} :
    (∀ a ∈ actions, a.Fits) ↔ ∀ a ∈ actions, a.Sound :=
  forall₂_congr fun a _ => a.fits_iff

/-- A header that fills its bytes, and a loop behind it. -/
theorem fills_header_loop {α : Type*} {pack : α → List Store × Int} {len : α → Int}
    {head : List Store} {k : Nat} {as : List α} (hhead : Fills noPad k head)
    (h : ∀ a ∈ as, Exact (len a) (pack a)) :
    Fills noPad (k + (as.map len).sum) (head ++ packLoop pack k as) := by
  rw [packLoop_eq_shift]
  exact hhead.append_full (fills_packLoop h)

theorem AnyInstruction.fills_actions {i : AnyInstruction} {actions : List AnyAction}
    (hlen : i.ofpLen = 8 + actionsTotalLen actions) (hbody : i.packBody = packActionsBody actions)
    (h : ∀ a ∈ actions, a.Sound) : Fills noPad i.ofpLen i.pack.1 := by
  have hhead : Fills noPad (8 : Nat)
      [⟨0, beBytes 2 i.typeNo⟩, ⟨4, zeros 4⟩, ⟨2, field 2 i.ofpLen⟩, ⟨4, zeros 4⟩] :=
    fills_of_tiles rfl
  have hall := fills_header_loop hhead fun a ha => AnyAction.exact_of_sound (h a ha)
  rw [pack, hbody, packActionsBody, ← hlen]
  rw [hlen] at hall ⊢
  exact hall

/-- An instruction fits when it is sound. -/
theorem AnyInstruction.fits_iff (i : AnyInstruction) : i.Fits ↔ i.Sound := by
  cases i with
  | writeActions actions | applyActions actions =>
    refine ⟨fun h => fitsAll_iff.mp h.1, fun h => ⟨fitsAll_iff.mpr h, fills_actions rfl rfl h⟩⟩
  | gotoTable | clearActions | meter =>
    exact iff_of_true ⟨fun _ h => (nomatch h), fills_of_tiles (k := 8) rfl⟩ trivial
  | writeMetadata =>
    exact iff_of_true ⟨fun _ h => (nomatch h), fills_of_tiles (k := 24) rfl⟩ trivial
  | experimenter => exact iff_of_false (fun h => absurd h.2.nonneg (by decide)) id
  | other type noCase =>
    refine iff_of_false (fun h => ?_) id
    have hstore := (h.2.within _ List.mem_cons_self).2
    simp [Store.stop, ofpLen] at hstore

theorem AnyInstruction.exact_of_sound {i : AnyInstruction} (h : i.Sound) :
    Exact i.ofpLen i.pack := by
  refine ⟨?_, (i.fits_iff.mpr h).2⟩
  cases i with
  | experimenter => exact h.elim
  | other => exact h.elim
  | _ => rfl

/-- A sound bucket is filled without alignment: its actions are aligned already. -/
theorem AnyBucket.fills_of_sound {b : AnyBucket} (h : b.Sound) :
    Fills noPad b.ofpLen b.pack.1 := by
  have hmod := actionsTotalLen_mod h
  have halign : b.align = 0 := by
    have hrem : b.unalignedLen % 8 = 0 := by
      unfold unalignedLen
      omega
    exact if_pos hrem
  have hret : b.loopEnd = b.unalignedLen := by
    have hmap : (b.actions.map fun a => a.pack.2) = b.actions.map (·.ofpLen) :=
      List.map_congr_left fun a ha => (AnyAction.exact_of_sound (h a ha)).returned
    rw [loopEnd, hmap, unalignedLen, actionsTotalLen]
  have hhead : Fills noPad (16 : Nat) [⟨0, AnyInstruction.field 2 b.ofpLen⟩, ⟨2, beBytes 2 b.weight⟩,
      ⟨4, beBytes 4 b.watchPort⟩, ⟨8, beBytes 4 b.watchGroup⟩, ⟨12, zeros 4⟩] :=
    fills_of_tiles rfl
  have hnone : Fills noPad (0 : Nat) [⟨0, zeros 0⟩] := fills_of_tiles rfl
  have hall :=
    (fills_header_loop hhead fun a ha => AnyAction.exact_of_sound (h a ha)).append_full hnone
  have hlen : b.ofpLen = b.unalignedLen := by rw [ofpLen, halign, Int.add_zero]
  rw [pack, hret, halign, hlen]
  simpa [unalignedLen, actionsTotalLen, hlen, shift, Store.shift] using hall

theorem AnyBucket.fits_iff (b : AnyBucket) : b.Fits ↔ b.Sound :=
  ⟨fun h => fitsAll_iff.mp h.1, fun h => ⟨fitsAll_iff.mpr h, fills_of_sound h⟩⟩

/-- A meter band fits when its type has a case. -/
theorem AnyBand.fits_iff (b : AnyBand) : b.Fits ↔ b.Sound := by
  obtain ⟨rate, burstSize, body⟩ := b
  cases body with
  | other type noCase =>
    refine iff_of_false (fun h => ?_) id
    have hstore := (h.within _ List.mem_cons_self).2
    simp [Store.stop, ofpLen] at hstore
  | _ => exact iff_of_true (fills_of_tiles (k := 16) rfl) trivial

theorem AnyBand.exact_of_sound {b : AnyBand} (h : b.Sound) : Exact b.ofpLen b.pack := by
  refine ⟨?_, b.fits_iff.mpr h⟩
  obtain ⟨rate, burstSize, body⟩ := b
  cases body with
  | other => exact h.elim
  | _ => rfl

end Structures

section Matches

/-! ## Matches -/

/-- What an entry takes on the wire is what its header tells. -/
theorem oxmPutTlv_length {e : OflMatchTlv} (h : oxmLength e.header ≤ e.value.length) :
    (oxmPutTlv e).length = entrySize e.header := by
  have hheader : (oxmPutHeader e.header).length = 4 := leBytes_length 4 _
  have hword : wordSize e.header =
      if oxmHasmask e.header = true then oxmLength e.header / 2 else oxmLength e.header := rfl
  unfold oxmPutTlv entrySize
  simp only [← hword]
  by_cases hsize : wordSize e.header ∈ writtenSizes
  · rw [if_pos hsize]
    simp only [writtenSizes, List.mem_cons, List.not_mem_nil, or_false] at hsize
    cases hm : oxmHasmask e.header <;> rw [hm] at hword <;>
      simp only [if_true, Bool.false_eq_true, if_false] at hword <;>
      rcases hsize with hk | hk | hk | hk | hk | hk <;> rw [hk] at hword ⊢ <;>
      simp only [Bool.not_true, Bool.not_false, Bool.false_eq_true, if_true, if_false,
        apply_ite List.length, oxmPut8, oxmPut8w, oxmPut16, oxmPut16w, oxmPut32, oxmPut32w,
        oxmPut64, oxmPut64w, oxmPutEth, oxmPutEthm, oxmPutIpv6, oxmPutIpv6m, ethAddrLen,
        ipv6AddrLen, List.length_append, List.length_take, List.length_drop, leBytes_length,
        hheader, ite_self] <;>
      omega
  · rw [if_neg hsize]
    simp only [writtenSizes, List.mem_cons, List.not_mem_nil, or_false, not_or] at hsize
    split <;> first | omega | rfl

theorem AnyMatch.oxmFields_length (m : AnyMatch) : m.oxmFields.length = m.entriesSize := by
  obtain ⟨pad, hput⟩ := oxmPutMatch_eq [] m.toOflMatch
  have hmap : (m.toOflMatch.entries.map fun e => (oxmPutTlv e).length) =
      m.toOflMatch.entries.map fun e => entrySize e.header :=
    List.map_congr_left fun e he => oxmPutTlv_length (m.readable e he)
  have hperm := (wireOrder_perm m.toOflMatch.entries).map fun e => (oxmPutTlv e).length
  rw [oxmFields, hput, List.nil_append, List.take_left', List.length_flatMap, hperm.sum_eq, hmap,
    entriesSize]
  rfl

/-- The room that is left for the match is its announced length, rounded up. -/
theorem FlowMod.matchRoom_eq (m : FlowMod) :
    m.matchRoom = (roundUp (4 + m.oflMatch.toOflMatch.length) 8 : Nat) := by
  unfold matchRoom matchEnd roundUp
  omega

/-- Where `w` bytes are written, what pads them up to eight is all that may be left. -/
theorem fills_padded_iff {w r : Nat} {ss : List Store} (h : Fills noPad w ss)
    (hlast : ∃ s ∈ ss, s.stop = w) :
    Fills (fun i => w ≤ i ∧ i < roundUp w 8) (roundUp r 8 : Nat) ss ↔
      roundUp r 8 = roundUp w 8 := by
  obtain ⟨hle, hup, hmod⟩ := roundUp_eight w
  obtain ⟨-, -, hmod'⟩ := roundUp_eight r
  constructor
  · intro hfills
    obtain ⟨s, hs, hstop⟩ := hlast
    have hin := (hfills.within s hs).2
    refine Nat.le_antisymm ?_ (by omega)
    by_contra hlt
    obtain ⟨t, ht, hit⟩ := hfills.covers (roundUp w 8) (by omega) (by omega) (by omega)
    have hstop' := (h.within t ht).2
    have hhit := hit.2
    omega
  · intro heq
    rw [heq]
    refine ⟨Int.natCast_nonneg _, fun s hs => ?_, fun i hi hlt hnot => ?_⟩
    · have hin := h.within s hs
      omega
    · exact h.covers i hi (by omega) id

section Pack

variable {m : AnyMatch} (htype : m.toOflMatch.type = ofpmtOxm)

include htype

theorem AnyMatch.pack_empty (hlength : m.toOflMatch.length = 0) :
    m.pack.1 = [⟨0, beBytes 2 m.toOflMatch.type⟩, ⟨2, beBytes 2 4⟩] := by
  rw [pack, if_pos htype]
  simp only [hlength, ne_eq, not_true_eq_false, if_false]

theorem AnyMatch.pack_entries (hlength : m.toOflMatch.length ≠ 0) :
    m.pack.1 = [⟨0, beBytes 2 m.toOflMatch.type⟩, ⟨2, beBytes 2 4⟩, ⟨4, m.oxmFields⟩,
      ⟨2, beBytes 2 (m.oxmFields.length + 4)⟩] := by
  rw [pack, if_pos htype]
  simp only [if_pos hlength, List.cons_append, List.nil_append]

/-- An OXM match is written without a gap. -/
theorem AnyMatch.fills_written :
    Fills noPad m.writtenLen m.pack.1 ∧ ∃ s ∈ m.pack.1, s.stop = m.writtenLen := by
  unfold writtenLen
  by_cases hlength : m.toOflMatch.length = 0
  · rw [pack_empty htype hlength, if_pos hlength]
    exact ⟨fills_of_tiles rfl, ⟨2, beBytes 2 4⟩, by simp, by simp [Store.stop]⟩
  · rw [pack_entries htype hlength, if_neg hlength]
    refine ⟨⟨Int.natCast_nonneg _, fun s hs => ?_, fun i hi hlt _ => ?_⟩, ⟨4, m.oxmFields⟩,
      by simp, by simp [Store.stop]⟩
    · simp only [List.mem_cons, List.not_mem_nil, or_false] at hs
      rcases hs with rfl | rfl | rfl | rfl <;> simp only [Store.stop, beBytes_length] <;> omega
    · simp only [List.exists_mem_cons_iff, Store.Hits, Store.stop, beBytes_length]
      omega

end Pack

/-- The match fits the room that is left for it when its length is that of its entries. -/
theorem FlowMod.match_fits_iff (m : FlowMod) :
    Fills m.oflMatch.pad m.matchRoom m.oflMatch.pack.1 ↔ m.oflMatch.Sound := by
  rw [matchRoom_eq]
  generalize m.oflMatch = om
  by_cases htype : om.toOflMatch.type = ofpmtOxm
  · obtain ⟨hfills, hlast⟩ := AnyMatch.fills_written htype
    refine (fills_padded_iff hfills hlast).trans ?_
    rw [AnyMatch.Sound, and_iff_right htype, AnyMatch.writtenLen]
    by_cases hlength : om.toOflMatch.length = 0
    · rw [if_pos hlength, hlength]
      exact iff_of_true rfl (.inl rfl)
    · rw [if_neg hlength, or_iff_right hlength, om.oxmFields_length]
  · -- nothing is written of a match of another type
    refine iff_of_false (fun h => ?_) fun h => htype h.1
    have hpack : om.pack.1 = [] := by rw [AnyMatch.pack, if_neg htype]
    have hwritten : 4 ≤ om.writtenLen := by
      unfold AnyMatch.writtenLen
      split <;> omega
    obtain ⟨hle, -, -⟩ := roundUp_eight (4 + om.toOflMatch.length)
    obtain ⟨s, hs, -⟩ := h.covers 0 (Int.le_refl 0) (by omega) fun hpad => by
      have hge := hpad.1
      omega
    rw [hpack] at hs
    exact nomatch hs

end Matches

section Messages

/-! ## Messages -/

theorem field_of_lt {n : Nat} (h : n < 2 ^ 16) : AnyInstruction.field 2 n = beBytes 2 n := by
  rw [AnyInstruction.field, ← Int.natCast_mod, Int.toNat_natCast,
    Nat.mod_eq_of_lt (show n < 256 ^ 2 from h)]

theorem headerStores_eq (type xid : Nat) (len : Int) : headerStores type xid len =
    row 0 [beBytes 1 4, beBytes 1 type, AnyInstruction.field 2 len, beBytes 4 xid] := by
  simp only [headerStores, row, beBytes_length, AnyInstruction.field]
  rfl

/-- `ofl_msg_pack` writes the header behind all else. -/
theorem fills_message {k : Nat} {pad : Int → Prop} {n : Int} {type xid : Nat} {bufLen : Int}
    {fields body : List Store} (hhead : Fills noPad k (fields ++ headerStores type xid bufLen))
    (hbody : Fills pad n body) :
    Fills (padBoth k noPad pad) (k + n) (fields ++ shift k body ++ headerStores type xid bufLen) := by
  refine (hhead.append hbody).perm ?_
  rw [List.append_assoc, List.append_assoc]
  exact (List.perm_append_comm).append_left _

/-- A flow modification of sound instructions, whose match fits, fills its buffer. -/
theorem FlowMod.fills_buffer {m : FlowMod} (h : ∀ i ∈ m.instructions, i.Sound)
    (hroom : Fills m.oflMatch.pad m.matchRoom m.oflMatch.pack.1) (xid : Nat) :
    Fills (fun i => m.oflMatch.pad (i - 48)) m.bufLen (m.pack xid) := by
  have hloop := fills_packLoop fun i hi => AnyInstruction.exact_of_sound (h i hi)
  have hhead : Fills noPad (48 : Nat) (m.fieldStores ++ headerStores 14 xid m.bufLen) :=
    fills_of_tiles rfl
  have hall := fills_message hhead (hroom.append hloop)
  have hend : (48 : Int) + m.matchRoom = m.matchEnd := by
    unfold matchRoom
    omega
  have hlen : ((48 : Nat) : Int) + (m.matchRoom + (m.instructions.map (·.ofpLen)).sum) =
      m.bufLen := by
    rw [bufLen, ← hend, instructionsTotalLen]
    exact (Int.add_assoc _ _ _).symm
  have hpack : m.pack xid = m.fieldStores ++ shift (48 : Nat) (m.oflMatch.pack.1 ++
      shift m.matchRoom (packLoop AnyInstruction.pack 0 m.instructions)) ++
        headerStores 14 xid m.bufLen := by
    rw [pack, packLoop_eq_shift, ← hend, shift_append, shift_shift, List.append_assoc m.fieldStores]
    rfl
  rw [hlen, ← hpack] at hall
  refine hall.mono fun i hpad => ?_
  rcases hpad with ⟨-, hno⟩ | ⟨-, ⟨-, hpad⟩ | ⟨-, hno⟩⟩
  · exact hno.elim
  · exact hpad
  · exact hno.elim

theorem FlowMod.fits_iff (m : FlowMod) :
    m.Fits ↔ (∀ i ∈ m.instructions, i.Sound) ∧ m.oflMatch.Sound := by
  unfold Fits
  rw [forall₂_congr fun i _ => i.fits_iff]
  constructor
  · exact fun h => ⟨h.1, m.match_fits_iff.mp h.2.1⟩
  · intro h
    have hroom := m.match_fits_iff.mpr h.2
    exact ⟨h.1, hroom, fills_buffer h.1 hroom⟩

/-- Fields and a header of `k` bytes with a loop behind them. -/
theorem fills_message_loop {α : Type*} {pack : α → List Store × Int} {len : α → Int} {k : Nat}
    {type xid : Nat} {bufLen : Int} {fields : List Store} {as : List α}
    (hhead : tiles k ((fields ++ headerStores type xid bufLen).map (·.extent)) = true)
    (h : ∀ a ∈ as, Exact (len a) (pack a)) :
    Fills noPad (k + (as.map len).sum)
      (fields ++ packLoop pack k as ++ headerStores type xid bufLen) := by
  rw [packLoop_eq_shift]
  exact (fills_message (fills_of_tiles hhead) (fills_packLoop h)).mono fun _ => padBoth_noPad

theorem GroupMod.fits_iff (m : GroupMod) : m.Fits ↔ ∀ b ∈ m.buckets, b.Sound := by
  unfold Fits
  rw [forall₂_congr fun b _ => b.fits_iff]
  refine ⟨fun h => h.1, fun h => ⟨h, fun xid => ?_⟩⟩
  exact fills_message_loop (k := 16) rfl fun b hb => ⟨rfl, AnyBucket.fills_of_sound (h b hb)⟩

theorem MeterMod.fits_iff (m : MeterMod) : m.Fits ↔ ∀ b ∈ m.bands, b.Sound := by
  unfold Fits
  rw [forall₂_congr fun b _ => b.fits_iff]
  refine ⟨fun h => h.1, fun h => ⟨h, fun xid => ?_⟩⟩
  exact fills_message_loop (k := 16) rfl fun b hb => AnyBand.exact_of_sound (h b hb)

end Messages

section Agreement

/-! ## All structures -/

/-- `ofl_structs_match_ofp_len` has no case for the matches that are packed. -/
theorem AnyMatch.fits_iff (m : AnyMatch) :
    m.Fits ↔ m.toOflMatch.type ≠ ofpmtStandard ∧ m.toOflMatch.type ≠ ofpmtOxm := by
  unfold Fits
  by_cases htype : m.toOflMatch.type = ofpmtOxm
  · refine iff_of_false (fun h => ?_) fun h => h.2 htype
    obtain ⟨hwritten, s, hs, hstop⟩ := fills_written htype
    have hin := (h.within s hs).2
    have hfour : 4 ≤ m.writtenLen := by
      unfold writtenLen
      split <;> omega
    rw [ofpLen, if_neg (by rw [htype]; decide)] at hin
    omega
  · have hpack : m.pack.1 = [] := by rw [pack, if_neg htype]
    rw [and_iff_left htype, hpack]
    by_cases hstd : m.toOflMatch.type = ofpmtStandard
    · refine iff_of_false (fun h => ?_) fun h => h hstd
      have hfour : 4 ≤ m.writtenLen := by
        unfold writtenLen
        split <;> omega
      obtain ⟨s, hs, -⟩ := h.covers 0 (Int.le_refl 0) (by rw [ofpLen, if_pos hstd]; decide)
        fun hpad => by
          have hge := hpad.1
          omega
      exact nomatch hs
    · refine iff_of_true ?_ hstd
      rw [ofpLen, if_neg hstd]
      exact fills_nil.mono fun _ h => h.elim

/-- A structure with a length function and a pack function, or a message built of them. -/
inductive Packable
  | action (a : AnyAction)
  | instruction (i : AnyInstruction)
  | bucket (b : AnyBucket)
  | band (b : AnyBand)
  | oflMatch (m : AnyMatch)
  | flowMod (m : FlowMod)
  | groupMod (m : GroupMod)
  | meterMod (m : MeterMod)

/-- Announced and written sizes agree, in all that the structure is built of. -/
def Packable.Agrees : Packable → Prop
  | action a => a.Fits
  | instruction i => i.Fits
  | bucket b => b.Fits
  | band b => b.Fits
  | oflMatch m => m.Fits
  | flowMod m => m.Fits
  | groupMod m => m.Fits
  | meterMod m => m.Fits

/-- All that the structure is built of is sound. -/
def Packable.Sound : Packable → Prop
  | action a => a.Sound
  | instruction i => i.Sound
  | bucket b => b.Sound
  | band b => b.Sound
  | oflMatch m => m.toOflMatch.type ≠ ofpmtStandard ∧ m.toOflMatch.type ≠ ofpmtOxm
  | flowMod m => (∀ i ∈ m.instructions, i.Sound) ∧ m.oflMatch.Sound
  | groupMod m => ∀ b ∈ m.buckets, b.Sound
  | meterMod m => ∀ b ∈ m.bands, b.Sound

/-- Announced and written sizes agree just where everything is sound. -/
theorem agrees_iff_sound (p : Packable) : p.Agrees ↔ p.Sound := by
  cases p with
  | action a => exact a.fits_iff
  | instruction i => exact i.fits_iff
  | bucket b => exact b.fits_iff
  | band b => exact b.fits_iff
  | oflMatch m => exact m.fits_iff
  | flowMod m => exact m.fits_iff
  | groupMod m => exact m.fits_iff
  | meterMod m => exact m.fits_iff

/-- A group with one bucket that has one experimenter action. -/
def experimenterGroup : GroupMod := ⟨0, 0, 1, [⟨0, 0, 0, [.experimenter]⟩]⟩

/-- The action is written behind the buffer: its length is `-1`, and with that the bucket
is still rounded up to 16 bytes. -/
theorem experimenter_overruns :
    experimenterGroup.bufLen = 32 ∧
      (⟨32, beBytes 2 ofpatExperimenter⟩ : Store) ∈ experimenterGroup.pack 0 ∧
        ¬(Packable.groupMod experimenterGroup).Agrees := by
  refine ⟨by decide, by decide, fun h => ?_⟩
  have hstore : (⟨32, beBytes 2 ofpatExperimenter⟩ : Store) ∈ experimenterGroup.pack 0 := by decide
  have hin := ((h.2 0).within _ hstore).2
  exact absurd hin (by decide)

end Agreement

end Nox.Ofl
