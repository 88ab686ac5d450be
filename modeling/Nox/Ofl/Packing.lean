import Nox.Lib.Stores
import Nox.Ofl.Actions

/-!
# Packing into a buffer

The pack functions of `ofl-actions-pack.c` and `ofl-structs-pack.c`, and those for flow,
group and meter modifications, as the stores they make through the pointer they are given.
Beside each stands the function that computes the length it is given memory for.

The controller passes no callbacks for experimenters.  A length is a `size_t`: where a
function returns `-1`, a sum that has it is one byte less, and a pointer that is advanced
by it goes one byte back.
-/

namespace Nox.Ofl

open Oxm Stores

section Action

/-! ## Actions -/

/-- The type of the action was written, and its value is as long as its header says. -/
def OflAction.Readable : OflAction → Prop
  | .setField field value => oxmLength field ≤ value.length
  | .untyped => False
  | _ => True

def ofpatExperimenter : Nat := 0xffff

/-- The types `ofl_actions_pack` and `ofl_actions_ofp_len` have a case for. -/
def actionTypes : List Nat :=
  [0, 11, 12, 15, 16, 17, 18, 19, 20, 21, 22, 23, 24, 25, 26, 27, ofpatExperimenter]

/-- What an `ofl_action_header *` can refer to. -/
inductive AnyAction
  | known (a : OflAction) (readable : a.Readable)
  | experimenter
  | other (type : Nat) (noCase : type ∉ actionTypes)

/-- The number of the type. -/
def OflAction.typeNo : OflAction → Nat
  | .output _ _ => ofpatOutput
  | .header type => type.type
  | .setMplsTtl _ => ofpatSetMplsTtl
  | .push type _ => type.type
  | .popMpls _ => ofpatPopMpls
  | .setQueue _ => ofpatSetQueue
  | .group _ => ofpatGroup
  | .setNwTtl _ => ofpatSetNwTtl
  | .setField _ _ => ofpatSetField
  | .untyped => 0

def AnyAction.typeNo : AnyAction → Nat
  | .known a _ => a.typeNo
  | .experimenter => ofpatExperimenter
  | .other type _ => type

/-- `ofl_actions_ofp_len` -/
def AnyAction.ofpLen : AnyAction → Int
  | .known a _ => ((oflActionsOfpLen a).getD 0 : Nat)
  | .experimenter => -1
  | .other _ _ => 0

def zeros (n : Nat) : Bytes := List.replicate n 0

/-- The value of a `set_field`; a size without a case stores nothing. -/
def setFieldValueStores (header : UInt32) (value : Bytes) : List Store :=
  match oxmLength header with
  | 1 | 2 | 4 | 6 | 8 | 16 => [⟨8, packSetFieldValue header value []⟩]
  | _ => []

/-- The cases of `ofl_actions_pack`: what they store, and what they return. -/
def OflAction.packBody : OflAction → List Store × Int
  | .output port maxLen =>
    ([⟨2, beBytes 2 16⟩, ⟨4, beBytes 4 port⟩, ⟨8, beBytes 2 maxLen⟩, ⟨10, zeros 6⟩], 16)
  | .header _ => ([⟨2, beBytes 2 8⟩], 8)
  | .setMplsTtl mplsTtl => ([⟨2, beBytes 2 8⟩, ⟨4, beBytes 1 mplsTtl⟩, ⟨5, zeros 3⟩], 8)
  | .push _ ethertype => ([⟨2, beBytes 2 8⟩, ⟨4, beBytes 2 ethertype⟩, ⟨6, zeros 2⟩], 8)
  | .popMpls ethertype => ([⟨2, beBytes 2 8⟩, ⟨4, beBytes 2 ethertype⟩, ⟨6, zeros 2⟩], 8)
  | .setQueue queueId => ([⟨2, beBytes 2 8⟩, ⟨4, beBytes 4 queueId⟩], 8)
  | .group groupId => ([⟨2, beBytes 2 8⟩, ⟨4, beBytes 4 groupId⟩], 8)
  | .setNwTtl nwTtl => ([⟨2, beBytes 2 8⟩, ⟨4, beBytes 1 nwTtl⟩, ⟨5, zeros 3⟩], 8)
  | .setField field value =>
    let len := 8 + roundUp (oxmLength field) 8
    ([⟨2, beBytes 2 len⟩, ⟨4, beBytes 4 field.toNat⟩] ++ setFieldValueStores field value ++
      [⟨8 + oxmLength field, zeros (roundUp (oxmLength field) 8 - oxmLength field)⟩],
      (len % 2 ^ 16 : Nat))
  | .untyped => ([], 0)

/-- `ofl_actions_pack`: the type and the padding of the header are stored before the
cases are told apart. -/
def AnyAction.pack (a : AnyAction) : List Store × Int :=
  let (body, ret) := match a with
    | .known a _ => a.packBody
    | .experimenter => ([], 0)
    | .other _ _ => ([], 0)
  ([⟨0, beBytes 2 a.typeNo⟩, ⟨4, zeros 4⟩] ++ body, ret)

/-- `ofl_actions_ofp_total_len` -/
def actionsTotalLen (actions : List AnyAction) : Int := (actions.map (·.ofpLen)).sum

end Action

section Instruction

/-! ## Instructions -/

def ofpitExperimenter : Nat := 0xffff

/-- The types with a case: `OFPIT_*`. -/
def instructionTypes : List Nat := [1, 2, 3, 4, 5, 6, ofpitExperimenter]

/-- What an `ofl_instruction_header *` can refer to. -/
inductive AnyInstruction
  | gotoTable (tableId : Nat)
  | writeMetadata (metadata metadataMask : Nat)
  | writeActions (actions : List AnyAction)
  | applyActions (actions : List AnyAction)
  | clearActions
  | meter (meterId : Nat)
  | experimenter
  | other (type : Nat) (noCase : type ∉ instructionTypes)

namespace AnyInstruction

def typeNo : AnyInstruction → Nat
  | gotoTable _ => 1
  | writeMetadata _ _ => 2
  | writeActions _ => 3
  | applyActions _ => 4
  | clearActions => 5
  | meter _ => 6
  | experimenter => ofpitExperimenter
  | other type _ => type

/-- The actions of an instruction that has some. -/
def actions : AnyInstruction → List AnyAction
  | writeActions actions | applyActions actions => actions
  | _ => []

/-- `ofl_structs_instructions_ofp_len` -/
def ofpLen : AnyInstruction → Int
  | gotoTable _ => 8
  | writeMetadata _ _ => 24
  | writeActions actions | applyActions actions => 8 + actionsTotalLen actions
  | clearActions => 8
  | meter _ => 8
  | experimenter => -1
  | other _ _ => 0

/-- A number in a field of `k` bytes, cut to them. -/
def field (k : Nat) (n : Int) : Bytes := beBytes k (n % (256 ^ k : Nat)).toNat

/-- The case of the instructions that have actions. -/
def packActionsBody (actions : List AnyAction) : List Store × Int :=
  let totalLen := 8 + actionsTotalLen actions
  ([⟨2, field 2 totalLen⟩, ⟨4, zeros 4⟩] ++ packLoop AnyAction.pack 8 actions, totalLen)

/-- The cases of `ofl_structs_instructions_pack`. -/
def packBody : AnyInstruction → List Store × Int
  | gotoTable tableId => ([⟨2, beBytes 2 8⟩, ⟨4, beBytes 1 tableId⟩, ⟨5, zeros 3⟩], 8)
  | writeMetadata metadata metadataMask =>
    ([⟨2, beBytes 2 24⟩, ⟨4, zeros 4⟩, ⟨8, beBytes 8 metadata⟩, ⟨16, beBytes 8 metadataMask⟩], 24)
  | writeActions actions | applyActions actions => packActionsBody actions
  | clearActions => ([⟨2, beBytes 2 8⟩, ⟨4, zeros 4⟩], 8)
  | meter meterId => ([⟨2, beBytes 2 8⟩, ⟨4, beBytes 4 meterId⟩], 8)
  | experimenter => ([], -1)
  | other _ _ => ([], 0)

/-- `ofl_structs_instructions_pack` -/
def pack (i : AnyInstruction) : List Store × Int :=
  ([⟨0, beBytes 2 i.typeNo⟩, ⟨4, zeros 4⟩] ++ i.packBody.1, i.packBody.2)

end AnyInstruction

/-- `ofl_structs_instructions_ofp_total_len` -/
def instructionsTotalLen (instructions : List AnyInstruction) : Int :=
  (instructions.map (·.ofpLen)).sum

end Instruction

section Bucket

/-! ## Buckets -/

/-- `ofl_bucket` -/
structure AnyBucket where
  weight : Nat
  watchPort : Nat
  watchGroup : Nat
  actions : List AnyAction

namespace AnyBucket

/-- The length before it is rounded. -/
def unalignedLen (b : AnyBucket) : Int := 16 + actionsTotalLen b.actions

/-- `align`: the rest of a `size_t` by eight is that of the number. -/
def align (b : AnyBucket) : Int :=
  let rem := b.unalignedLen % 8
  if rem = 0 then 0 else 8 - rem

/-- `ofl_structs_buckets_ofp_len` -/
def ofpLen (b : AnyBucket) : Int := b.unalignedLen + b.align

/-- The offset of `data` behind the loop. -/
def loopEnd (b : AnyBucket) : Int := 16 + (b.actions.map fun a => a.pack.2).sum

/-- `ofl_structs_bucket_pack` -/
def pack (b : AnyBucket) : List Store × Int :=
  ([⟨0, AnyInstruction.field 2 b.ofpLen⟩, ⟨2, beBytes 2 b.weight⟩, ⟨4, beBytes 4 b.watchPort⟩,
      ⟨8, beBytes 4 b.watchGroup⟩, ⟨12, zeros 4⟩] ++
    packLoop AnyAction.pack 16 b.actions ++ [⟨b.loopEnd, zeros b.align.toNat⟩], b.ofpLen)

end AnyBucket

/-- `ofl_structs_buckets_ofp_total_len` -/
def bucketsTotalLen (buckets : List AnyBucket) : Int := (buckets.map (·.ofpLen)).sum

end Bucket

section Band

/-! ## Meter bands -/

def ofpmbtExperimenter : Nat := 0xffff

/-- `OFPMBT_*` -/
def bandTypes : List Nat := [1, 2, ofpmbtExperimenter]

/-- The cases of an `ofl_meter_band_header`. -/
inductive BandBody
  | drop
  | dscpRemark (precLevel : Nat)
  | experimenter (experimenter : Nat)
  | other (type : Nat) (noCase : type ∉ bandTypes)

/-- What an `ofl_meter_band_header *` can refer to. -/
structure AnyBand where
  rate : Nat
  burstSize : Nat
  body : BandBody

namespace AnyBand

def typeNo (b : AnyBand) : Nat :=
  match b.body with
  | .drop => 1
  | .dscpRemark _ => 2
  | .experimenter _ => ofpmbtExperimenter
  | .other type _ => type

/-- `ofl_structs_meter_band_ofp_len` -/
def ofpLen (b : AnyBand) : Int :=
  match b.body with
  | .drop => 16
  | .dscpRemark _ => 16
  | .experimenter _ => 16
  | .other _ _ => 0

/-- `ofl_structs_meter_band_pack` -/
def pack (b : AnyBand) : List Store × Int :=
  let (body, ret) : List Store × Int := match b.body with
    | .drop => ([⟨2, beBytes 2 16⟩, ⟨12, zeros 4⟩], 16)
    | .dscpRemark precLevel => ([⟨2, beBytes 2 16⟩, ⟨12, beBytes 1 precLevel⟩, ⟨13, zeros 3⟩], 16)
    | .experimenter experimenter => ([⟨2, beBytes 2 16⟩, ⟨12, beBytes 4 experimenter⟩], 16)
    | .other _ _ => ([], 0)
  ([⟨0, beBytes 2 b.typeNo⟩, ⟨4, beBytes 4 b.rate⟩, ⟨8, beBytes 4 b.burstSize⟩] ++ body, ret)

end AnyBand

/-- `ofl_structs_meter_bands_ofp_total_len` -/
def bandsTotalLen (bands : List AnyBand) : Int := (bands.map (·.ofpLen)).sum

end Band

section Match

/-! ## Matches -/

def ofpmtStandard : Nat := 0

/-- A match whose values are as long as their headers say. -/
structure AnyMatch where
  toOflMatch : OflMatch
  readable : ∀ e ∈ toOflMatch.entries, oxmLength e.header ≤ e.value.length

namespace AnyMatch

/-- `ofl_structs_match_ofp_len` -/
def ofpLen (m : AnyMatch) : Int := if m.toOflMatch.type = ofpmtStandard then 8 else 0

/-- What `ofpbuf_pull` gives of what `oxm_put_match` put. -/
def oxmFields (m : AnyMatch) : Bytes :=
  (oxmPutMatch [] m.toOflMatch).1.take (oxmPutMatch [] m.toOflMatch).2

/-- `ofl_structs_match_pack` in host order; `ntohs` of the length is returned. -/
def pack (m : AnyMatch) : List Store × Int :=
  if m.toOflMatch.type = ofpmtOxm then
    let init : List Store := [⟨0, beBytes 2 m.toOflMatch.type⟩, ⟨2, beBytes 2 4⟩]
    if m.toOflMatch.length ≠ 0 then
      let len := m.oxmFields.length + 4
      (init ++ [⟨4, m.oxmFields⟩, ⟨2, beBytes 2 len⟩], (len % 2 ^ 16 : Nat))
    else (init, 0)
  else ([], -1)

end AnyMatch

end Match

section Message

/-! ## Messages -/

/-- The header, which `ofl_msg_pack` stores last. -/
def headerStores (type xid : Nat) (bufLen : Int) : List Store :=
  [⟨0, beBytes 1 4⟩, ⟨1, beBytes 1 type⟩, ⟨2, AnyInstruction.field 2 bufLen⟩, ⟨4, beBytes 4 xid⟩]

/-- `ofl_msg_flow_mod` -/
structure FlowMod where
  cookie : Nat
  cookieMask : Nat
  tableId : Nat
  command : Nat
  idleTimeout : Nat
  hardTimeout : Nat
  priority : Nat
  bufferId : Nat
  outPort : Nat
  outGroup : Nat
  flags : Nat
  oflMatch : AnyMatch
  instructions : List AnyInstruction

/-- `ofl_msg_group_mod` -/
structure GroupMod where
  command : Nat
  type : Nat
  groupId : Nat
  buckets : List AnyBucket

/-- `ofl_msg_meter_mod` -/
structure MeterMod where
  command : Nat
  flags : Nat
  meterId : Nat
  bands : List AnyBand

namespace FlowMod

/-- Where the instructions begin. -/
def matchEnd (m : FlowMod) : Nat := roundUp (52 + m.oflMatch.toOflMatch.length) 8

/-- The length `ofl_msg_pack_flow_mod` allocates. -/
def bufLen (m : FlowMod) : Int := m.matchEnd + instructionsTotalLen m.instructions

def fieldStores (m : FlowMod) : List Store :=
  [⟨8, beBytes 8 m.cookie⟩, ⟨16, beBytes 8 m.cookieMask⟩, ⟨24, beBytes 1 m.tableId⟩,
    ⟨25, beBytes 1 m.command⟩, ⟨26, beBytes 2 m.idleTimeout⟩, ⟨28, beBytes 2 m.hardTimeout⟩,
    ⟨30, beBytes 2 m.priority⟩, ⟨32, beBytes 4 m.bufferId⟩, ⟨36, beBytes 4 m.outPort⟩,
    ⟨40, beBytes 4 m.outGroup⟩, ⟨44, beBytes 2 m.flags⟩, ⟨46, zeros 2⟩]

/-- `ofl_msg_pack_flow_mod`, and the header. -/
def pack (m : FlowMod) (xid : Nat) : List Store :=
  m.fieldStores ++ shift 48 m.oflMatch.pack.1 ++
    packLoop AnyInstruction.pack m.matchEnd m.instructions ++ headerStores 14 xid m.bufLen

end FlowMod

namespace GroupMod

/-- The length `ofl_msg_pack_group_mod` allocates. -/
def bufLen (m : GroupMod) : Int := 16 + bucketsTotalLen m.buckets

def fieldStores (m : GroupMod) : List Store :=
  [⟨8, beBytes 2 m.command⟩, ⟨10, beBytes 1 m.type⟩, ⟨11, zeros 1⟩, ⟨12, beBytes 4 m.groupId⟩]

/-- `ofl_msg_pack_group_mod`, and the header. -/
def pack (m : GroupMod) (xid : Nat) : List Store :=
  m.fieldStores ++ packLoop AnyBucket.pack 16 m.buckets ++ headerStores 15 xid m.bufLen

end GroupMod

namespace MeterMod

/-- The length `ofl_msg_pack_meter_mod` allocates. -/
def bufLen (m : MeterMod) : Int := 16 + bandsTotalLen m.bands

def fieldStores (m : MeterMod) : List Store :=
  [⟨8, beBytes 2 m.command⟩, ⟨10, beBytes 2 m.flags⟩, ⟨12, beBytes 4 m.meterId⟩]

/-- `ofl_msg_pack_meter_mod`, and the header. -/
def pack (m : MeterMod) (xid : Nat) : List Store :=
  m.fieldStores ++ packLoop AnyBand.pack 16 m.bands ++ headerStores 29 xid m.bufLen

end MeterMod

end Message

end Nox.Ofl
