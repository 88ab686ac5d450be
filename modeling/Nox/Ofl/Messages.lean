import Nox.Ofl.Sizes

/-!
# The lengths in a message

Where `ofl_msg_pack` and the functions it calls store a length of 16 bits: in the header of
the message, in a match, an instruction, an action, a bucket, a meter band, and in the
elements of the multipart messages.  Each length goes through `htons`, and beside it stands
how many bytes its element has in the buffer: what the packer stores of it, or where the loop
over its parts ends.

Of a message stands here what its size depends on.  Where an experimenter is met there is no
callback, as in `Packing`.
-/

namespace Nox.Ofl

open Oxm Stores

section Lengths

/-! ## Stored lengths -/

/-- A stored length: where it is, what is stored, and how many bytes the element has. -/
structure LengthField where
  offset : Int
  written : Nat
  real : Int
  deriving DecidableEq, Repr

namespace LengthField

/-- The length tells the truth. -/
def Truthful (f : LengthField) : Prop := (f.written : Int) = f.real

instance (f : LengthField) : Decidable f.Truthful := inferInstanceAs (Decidable (_ = _))

def shift (ptr : Int) (f : LengthField) : LengthField := { f with offset := ptr + f.offset }

/-- The store of the length. -/
def store (f : LengthField) : Store := ⟨f.offset, beBytes 2 f.written⟩

end LengthField

/-- What `htons` leaves of a size. -/
def htonsSize (n : Int) : Nat := (n % (256 ^ 2 : Nat)).toNat

/-- The length of an element of `real` bytes whose size was computed as `announced`. -/
def lengthAt (offset announced real : Int) : LengthField := ⟨offset, htonsSize announced, real⟩

/-- The lengths that a loop stores which packs elements and advances behind each. -/
def loopFields {α : Type*} (fields : α → List LengthField) (advance : α → Int) :
    Int → List α → List LengthField
  | _, [] => []
  | ptr, a :: as => (fields a).map (·.shift ptr) ++ loopFields fields advance (ptr + advance a) as

/-- Where the last of the stores ends. -/
def storesEnd (ss : List Store) : Int := (ss.map (·.stop)).foldr max 0

end Lengths

section Structures

/-! ## Actions, instructions, buckets, bands -/

/-- The length in the header of an action.  One without a case has its type stored, and no
length. -/
def AnyAction.lengthFields : AnyAction → List LengthField
  | a@(.known action _) =>
    [lengthAt 2 ((oflActionsOfpLen action).getD 0 : Nat) (storesEnd a.pack.1)]
  | .experimenter => []
  | .other _ _ => []

/-- The lengths of actions that are packed one behind the other. -/
def actionsFields (ptr : Int) (actions : List AnyAction) : List LengthField :=
  loopFields AnyAction.lengthFields (fun a => a.pack.2) ptr actions

/-- The bytes the loop over the actions advances. -/
def actionsAdvance (actions : List AnyAction) : Int := (actions.map fun a => a.pack.2).sum

namespace AnyInstruction

def lengthFields : AnyInstruction → List LengthField
  | gotoTable _ | clearActions | meter _ => [lengthAt 2 8 8]
  | writeMetadata _ _ => [lengthAt 2 24 24]
  | writeActions actions | applyActions actions =>
    lengthAt 2 (8 + actionsTotalLen actions) (8 + actionsAdvance actions) ::
      actionsFields 8 actions
  | experimenter => []
  | other _ _ => []

end AnyInstruction

/-- The lengths of instructions that are packed one behind the other. -/
def instructionsFields (ptr : Int) (instructions : List AnyInstruction) : List LengthField :=
  loopFields AnyInstruction.lengthFields (fun i => i.pack.2) ptr instructions

def instructionsAdvance (instructions : List AnyInstruction) : Int :=
  (instructions.map fun i => i.pack.2).sum

def AnyBucket.lengthFields (b : AnyBucket) : List LengthField :=
  lengthAt 0 b.ofpLen (b.loopEnd + b.align) :: actionsFields 16 b.actions

def AnyBand.lengthFields (b : AnyBand) : List LengthField :=
  match b.body with
  | .drop | .dscpRemark _ | .experimenter _ => [lengthAt 2 16 16]
  | .other _ _ => []

/-- The length of a match does not count the padding behind it. -/
def AnyMatch.lengthFields (m : AnyMatch) : List LengthField :=
  if m.toOflMatch.type = ofpmtOxm then
    if m.toOflMatch.length ≠ 0 then [lengthAt 2 (m.oxmFields.length + 4) (4 + m.oxmFields.length)]
    else [lengthAt 2 4 4]
  else []

end Structures

section PacketMatch

/-! ## The match of a packet

`oxm_put_packet_match` writes the values as they are in memory. -/

/-- The body of its loop over the remaining fields. -/
def oxmPutPacketTlv (oft : OflMatchTlv) : Bytes :=
  let hasMask := oxmHasmask oft.header
  let length := if hasMask then oxmLength oft.header / 2 else oxmLength oft.header
  let value := oft.value
  let mask := oft.value.drop length
  match length with
  | 1 =>
    if !hasMask then oxmPut8 oft.header (load 1 value)
    else oxmPut8w oft.header (load 1 value) (load 1 mask)
  | 2 =>
    if !hasMask then oxmPut16 oft.header (load 2 value)
    else oxmPut16w oft.header (load 2 value) (load 2 mask)
  | 4 =>
    if !hasMask then oxmPut32 oft.header (load 4 value)
    else oxmPut32w oft.header (load 4 value) (load 4 mask)
  | 8 =>
    if !hasMask then oxmPut64 oft.header (load 8 value)
    else oxmPut64w oft.header (load 8 value) (load 8 mask)
  | 6 =>
    if !hasMask then oxmPutEth oft.header value
    else oxmPutEthm oft.header value mask
  | 16 =>
    if !hasMask then oxmPutIpv6 oft.header value
    else oxmPutIpv6m oft.header value mask
  | _ => []

open OxmFieldIndex in
def oxmPutPacketRequisites (omt : OflMatch) : Bytes :=
  (omt.withHash inPort.header).flatMap (fun oft => oxmPut32 oft.header (load 4 oft.value)) ++
    (omt.withHash ethType.header).flatMap (fun oft => oxmPut16 oft.header (load 2 oft.value)) ++
    (omt.withHash vlanVid.header).flatMap (fun oft => oxmPut16 oft.header (load 2 oft.value)) ++
    (omt.withHash ipProto.header).flatMap (fun oft => oxmPut8 oft.header (load 1 oft.value))

/-- `oxm_put_packet_match`, without the padding. -/
def oxmPutPacketMatch (omt : OflMatch) : Bytes :=
  oxmPutPacketRequisites omt ++
    omt.entries.flatMap (fun oft => if isRequisite oft.header then [] else oxmPutPacketTlv oft)

/-- `ofl_structs_match_pack` in network order. -/
def AnyMatch.packetLengthFields (m : AnyMatch) : List LengthField :=
  let oxmLen := (oxmPutPacketMatch m.toOflMatch).length
  if m.toOflMatch.type = ofpmtOxm then
    if m.toOflMatch.length ≠ 0 then [lengthAt 2 (oxmLen + 4) (4 + oxmLen)]
    else [lengthAt 2 4 4]
  else []

end PacketMatch

section Elements

/-! ## The elements of multipart messages -/

/-- `ofl_flow_stats` -/
structure OflFlowStats where
  oflMatch : AnyMatch
  instructions : List AnyInstruction

namespace OflFlowStats

/-- Where the instructions begin. -/
def matchEnd (s : OflFlowStats) : Nat := roundUp (52 + s.oflMatch.toOflMatch.length) 8

/-- `ofl_structs_flow_stats_ofp_len`, and what `ofl_structs_flow_stats_pack` returns. -/
def ofpLen (s : OflFlowStats) : Int := s.matchEnd + instructionsTotalLen s.instructions

def lengthFields (s : OflFlowStats) : List LengthField :=
  lengthAt 0 s.ofpLen (s.matchEnd + instructionsAdvance s.instructions) ::
    (s.oflMatch.lengthFields.map (·.shift 48) ++ instructionsFields s.matchEnd s.instructions)

end OflFlowStats

/-- `ofl_group_stats` -/
structure OflGroupStats where
  countersNum : Nat

namespace OflGroupStats

/-- `ofl_structs_group_stats_ofp_len` -/
def ofpLen (s : OflGroupStats) : Int := 40 + 16 * s.countersNum

def lengthFields (s : OflGroupStats) : List LengthField :=
  [lengthAt 0 s.ofpLen (40 + (List.replicate s.countersNum (16 : Int)).sum)]

end OflGroupStats

/-- `ofl_group_desc_stats` -/
structure OflGroupDescStats where
  buckets : List AnyBucket

namespace OflGroupDescStats

/-- `ofl_structs_group_desc_stats_ofp_len` -/
def ofpLen (s : OflGroupDescStats) : Int := 8 + bucketsTotalLen s.buckets

def lengthFields (s : OflGroupDescStats) : List LengthField :=
  lengthAt 0 s.ofpLen (8 + (s.buckets.map fun b => b.pack.2).sum) ::
    loopFields AnyBucket.lengthFields (fun b => b.pack.2) 8 s.buckets

end OflGroupDescStats

/-- `ofl_meter_stats` -/
structure OflMeterStats where
  meterBandsNum : Nat

namespace OflMeterStats

/-- `ofl_structs_meter_stats_ofp_len` -/
def ofpLen (s : OflMeterStats) : Int := 40 + 16 * s.meterBandsNum

def lengthFields (s : OflMeterStats) : List LengthField :=
  [lengthAt 4 s.ofpLen (40 + (List.replicate s.meterBandsNum (16 : Int)).sum)]

end OflMeterStats

/-- `ofl_meter_config` -/
structure OflMeterConfig where
  bands : List AnyBand

namespace OflMeterConfig

/-- `ofl_structs_meter_conf_ofp_len` -/
def ofpLen (c : OflMeterConfig) : Int := 8 + bandsTotalLen c.bands

def lengthFields (c : OflMeterConfig) : List LengthField :=
  lengthAt 0 c.ofpLen (8 + (c.bands.map fun b => b.pack.2).sum) ::
    loopFields AnyBand.lengthFields (fun b => b.pack.2) 8 c.bands

end OflMeterConfig

/-- `ofl_queue_prop_header`, by its type. -/
inductive OflQueueProp
  | minRate | maxRate | experimenter
  | other (type : Nat)

namespace OflQueueProp

/-- `ofl_structs_queue_prop_ofp_len`, and what `ofl_structs_queue_prop_pack` returns. -/
def ofpLen : OflQueueProp → Int
  | minRate | maxRate | experimenter => 16
  | other _ => 0

def lengthFields : OflQueueProp → List LengthField
  | minRate | maxRate | experimenter => [lengthAt 2 16 16]
  | other _ => []

end OflQueueProp

/-- `ofl_packet_queue` -/
structure OflPacketQueue where
  properties : List OflQueueProp

namespace OflPacketQueue

/-- `ofl_structs_packet_queue_ofp_len` -/
def ofpLen (q : OflPacketQueue) : Int := 16 + (q.properties.map (·.ofpLen)).sum

def lengthFields (q : OflPacketQueue) : List LengthField :=
  lengthAt 8 q.ofpLen (16 + (q.properties.map (·.ofpLen)).sum) ::
    loopFields OflQueueProp.lengthFields (·.ofpLen) 16 q.properties

end OflPacketQueue

end Elements

section TableFeatures

/-! ## Table features

The length of a property is one the message carries, and so is that of an action in it. -/

/-- `ofl_table_feature_prop_header` with what follows it. -/
inductive OflTableFeatureProp
  | instructions (length : UInt16) (types : List Nat)
  | nextTables (length : UInt16) (tableNum : Nat)
  | actions (length : UInt16) (ids : List (Nat × UInt16))
  | oxm (length : UInt16) (oxmNum : Nat)
  -- an experimenter, or a type without a case
  | other (length : UInt16)

/-- `ofl_error` -/
def oflErrorNo (type code : Nat) : Nat := 0x80000000 + type * 2 ^ 16 + code

namespace OflTableFeatureProp

def length : OflTableFeatureProp → UInt16
  | instructions length _ | nextTables length _ | actions length _ | oxm length _
  | other length => length

/-- The instructions up to the first experimenter, where the packer leaves. -/
def packedTypes (types : List Nat) : List Nat := types.takeWhile (· ≠ ofpitExperimenter)

/-- The header of an action in a property.  Of an experimenter the memory is copied: the type
has four bytes there, and the upper ones lie where the length is. -/
def actionIdField (id : Nat × UInt16) : LengthField :=
  if id.1 = ofpatExperimenter then ⟨2, 0, 8⟩ else ⟨2, id.2.toNat, 4⟩

def actionIdSize (id : Nat × UInt16) : Nat := if id.1 = ofpatExperimenter then 8 else 4

/-- The bytes of a property, without the padding. -/
def size : OflTableFeatureProp → Nat
  | instructions _ types => 4 + 4 * (packedTypes types).length
  | nextTables _ tableNum => 4 + tableNum
  | actions _ ids => 4 + (ids.map actionIdSize).sum
  | oxm _ oxmNum => 4 + 4 * oxmNum
  | other _ => 0

/-- What `ofl_structs_table_properties_pack` returns. -/
def advance : OflTableFeatureProp → Nat
  | instructions length types =>
    if ofpitExperimenter ∈ types then oflErrorNo 3 1 else roundUp length.toNat 8
  | nextTables length _ | actions length _ | oxm length _ => roundUp length.toNat 8
  | other _ => 0

def lengthFields (p : OflTableFeatureProp) : List LengthField :=
  let header : LengthField := ⟨2, p.length.toNat, p.size⟩
  match p with
  | instructions _ types =>
    header :: loopFields (fun _ => [lengthAt 2 4 4]) (fun _ => 4) 4 (packedTypes types)
  | nextTables _ _ => [header]
  | actions _ ids =>
    header :: loopFields (fun id => [actionIdField id]) (fun id => actionIdSize id) 4 ids
  | oxm _ _ => [header]
  | other _ => []

end OflTableFeatureProp

/-- `ofl_table_features` -/
structure OflTableFeatures where
  properties : List OflTableFeatureProp

namespace OflTableFeatures

/-- The properties that are packed: `properties_num - 1` of them. -/
def packed (t : OflTableFeatures) : List OflTableFeatureProp := t.properties.dropLast

/-- What `ofl_structs_table_features_pack` returns. -/
def totalLen (t : OflTableFeatures) : Int :=
  64 + (t.packed.map fun p => (roundUp p.length.toNat 8 : Int)).sum

def lengthFields (t : OflTableFeatures) : List LengthField :=
  lengthAt 0 t.totalLen (64 + (t.packed.map fun p => (p.advance : Int)).sum) ::
    loopFields OflTableFeatureProp.lengthFields (fun p => p.advance) 64 t.packed

end OflTableFeatures

/-- A number in an `int`. -/
def toInt (n : Int) : Int := (n + 2 ^ 31) % 2 ^ 32 - 2 ^ 31

/-- `ofl_structs_table_features_ofp_total_len`: the total is kept in an `int`. -/
def tableFeaturesTotalLen (features : List OflTableFeatures) : Int :=
  toInt (features.map (·.totalLen)).sum

/-- The loop over the table features, which is left out where their total is zero. -/
def tableFeaturesFields (features : List OflTableFeatures) : List LengthField :=
  if tableFeaturesTotalLen features = 0 then []
  else loopFields OflTableFeatures.lengthFields (·.totalLen) 16 features

end TableFeatures

section Messages

/-! ## Messages -/

/-- The messages without parts of a variable size. -/
inductive FixedMsg
  | hello | featuresRequest | featuresReply | getConfigRequest | getConfigReply | setConfig
  | portStatus | getAsyncRequest | getAsyncReply | setAsync | portMod | tableMod
  | barrierRequest | barrierReply | queueGetConfigRequest

/-- The `sizeof` of the message on the wire. -/
def FixedMsg.size : FixedMsg → Nat
  | hello | featuresRequest | getConfigRequest | getAsyncRequest | barrierRequest
  | barrierReply => 8
  | featuresReply => 32
  | getConfigReply | setConfig => 12
  | portStatus => 80
  | getAsyncReply | setAsync => 32
  | portMod => 40
  | tableMod => 16
  | queueGetConfigRequest => 16

/-- The requests `ofl_msg_pack_multipart_request` has a case for, and the rest. -/
inductive MultipartRequest
  | desc | table | groupDesc | groupFeatures | meterFeatures | portDesc
  | portStats | queue | group | meter | meterConfig
  | flow (oflMatch : AnyMatch)
  | aggregate (oflMatch : AnyMatch)
  | tableFeatures (features : List OflTableFeatures)
  | experimenter
  | other (type : Nat)

/-- The replies `ofl_msg_pack_multipart_reply` has a case for, and the rest. -/
inductive MultipartReply
  | desc | aggregate | groupFeatures | meterFeatures
  | table (statsNum : Nat)
  | portStats (statsNum : Nat)
  | queue (statsNum : Nat)
  | portDesc (statsNum : Nat)
  | flow (stats : List OflFlowStats)
  | group (stats : List OflGroupStats)
  | groupDesc (stats : List OflGroupDescStats)
  | meter (stats : List OflMeterStats)
  | meterConfig (stats : List OflMeterConfig)
  | tableFeatures (features : List OflTableFeatures)
  | experimenter
  | other (type : Nat)

/-- What an `ofl_msg_header *` can refer to. -/
inductive AnyMsg
  | fixed (m : FixedMsg)
  | error (dataLength : Nat)
  | echoRequest (dataLength : Nat)
  | echoReply (dataLength : Nat)
  | packetIn (oflMatch : AnyMatch) (dataLength : Nat)
  | flowRemoved (oflMatch : AnyMatch)
  | packetOut (actions : List AnyAction) (dataLength : Nat)
  | flowMod (m : FlowMod)
  | groupMod (m : GroupMod)
  | meterMod (m : MeterMod)
  | multipartRequest (r : MultipartRequest)
  | multipartReply (r : MultipartReply)
  | queueGetConfigReply (queues : List OflPacketQueue)
  | experimenter
  | roleRequest | roleReply
  | other (type : Nat)

/-- What becomes of a message. -/
inductive Packed
  -- an error is returned
  | failed
  -- memory is read that the message does not have
  | undefined
  -- a buffer of this size, and the lengths stored in it besides its own
  | packed (bufLen : Int) (fields : List LengthField)

/-- `ofl_msg_pack_multipart_request_table_features` and its counterpart for the reply:
without properties the number of those to pack wraps. -/
def packTableFeatures (features : List OflTableFeatures) : Packed :=
  if ∃ t ∈ features, t.properties = [] then .undefined
  else .packed (16 + tableFeaturesTotalLen features) (tableFeaturesFields features)

/-- `ofl_msg_pack_multipart_request_flow`: the room for the match is not rounded. -/
def packFlowRequest (oflMatch : AnyMatch) : Packed :=
  .packed (16 + 40 + oflMatch.toOflMatch.length) (oflMatch.lengthFields.map (·.shift 48))

/-- `ofl_msg_pack_multipart_request` -/
def MultipartRequest.pack : MultipartRequest → Packed
  | desc | table | groupDesc | groupFeatures | meterFeatures | portDesc => .packed 16 []
  | portStats | queue | group | meter | meterConfig => .packed (16 + 8) []
  | flow oflMatch | aggregate oflMatch => packFlowRequest oflMatch
  | tableFeatures features => packTableFeatures features
  | experimenter => .failed
  | other _ => .failed

/-- `ofl_msg_pack_multipart_reply` -/
def MultipartReply.pack : MultipartReply → Packed
  | desc => .packed (16 + 1056) []
  | aggregate => .packed (16 + 24) []
  | groupFeatures => .packed (16 + 40) []
  | meterFeatures => .packed (16 + 16) []
  | table statsNum => .packed (16 + statsNum * 24) []
  | portStats statsNum => .packed (16 + statsNum * 112) []
  | queue statsNum => .packed (16 + statsNum * 40) []
  | portDesc statsNum => .packed (16 + statsNum * 64) []
  | flow stats =>
    .packed (16 + (stats.map (·.ofpLen)).sum) (loopFields (·.lengthFields) (·.ofpLen) 16 stats)
  | group stats =>
    .packed (16 + (stats.map (·.ofpLen)).sum) (loopFields (·.lengthFields) (·.ofpLen) 16 stats)
  | groupDesc stats =>
    .packed (16 + (stats.map (·.ofpLen)).sum) (loopFields (·.lengthFields) (·.ofpLen) 16 stats)
  | meter stats =>
    .packed (16 + (stats.map (·.ofpLen)).sum) (loopFields (·.lengthFields) (·.ofpLen) 16 stats)
  | meterConfig stats =>
    .packed (16 + (stats.map (·.ofpLen)).sum) (loopFields (·.lengthFields) (·.ofpLen) 16 stats)
  | tableFeatures features => packTableFeatures features
  | experimenter => .failed
  | other _ => .failed

/-- The lengths in a flow modification, but for that of its header. -/
def FlowMod.lengthFields (m : FlowMod) : List LengthField :=
  m.oflMatch.lengthFields.map (·.shift 48) ++ instructionsFields m.matchEnd m.instructions

def GroupMod.lengthFields (m : GroupMod) : List LengthField :=
  loopFields AnyBucket.lengthFields (fun b => b.pack.2) 16 m.buckets

def MeterMod.lengthFields (m : MeterMod) : List LengthField :=
  loopFields AnyBand.lengthFields (fun b => b.pack.2) 16 m.bands

/-- `ofl_msg_pack`, without the header.  The case of the role messages runs on into the
default, which returns an error. -/
def AnyMsg.packBody : AnyMsg → Packed
  | fixed m => .packed m.size []
  | error dataLength => .packed (12 + dataLength) []
  | echoRequest dataLength | echoReply dataLength => .packed (8 + dataLength) []
  | packetIn oflMatch dataLength =>
    .packed (32 + roundUp (oflMatch.toOflMatch.length - 4) 8 + dataLength + 2)
      (oflMatch.packetLengthFields.map (·.shift 24))
  | flowRemoved oflMatch =>
    .packed (roundUp (52 + oflMatch.toOflMatch.length) 8)
      (oflMatch.lengthFields.map (·.shift 48))
  | packetOut actions dataLength =>
    .packed (24 + actionsTotalLen actions + dataLength)
      (lengthAt 16 (actionsTotalLen actions) (actionsAdvance actions) :: actionsFields 24 actions)
  | flowMod m => .packed m.bufLen m.lengthFields
  | groupMod m => .packed m.bufLen m.lengthFields
  | meterMod m => .packed m.bufLen m.lengthFields
  | multipartRequest r => r.pack
  | multipartReply r => r.pack
  | queueGetConfigReply queues =>
    .packed (16 + (queues.map (·.ofpLen)).sum) (loopFields (·.lengthFields) (·.ofpLen) 16 queues)
  | experimenter => .failed
  | roleRequest | roleReply => .failed
  | other _ => .failed

/-- `ofl_msg_pack`: the length of the buffer goes into the header last. -/
def AnyMsg.pack (m : AnyMsg) : Packed :=
  match m.packBody with
  | .packed bufLen fields => .packed bufLen (fields ++ [lengthAt 2 bufLen bufLen])
  | p => p

/-- Packing returns an error, or every length it stores is that of its element. -/
def AnyMsg.LengthsTell (m : AnyMsg) : Prop :=
  match m.pack with
  | .failed => True
  | .undefined => False
  | .packed _ fields => ∀ f ∈ fields, f.Truthful

end Messages

end Nox.Ofl
