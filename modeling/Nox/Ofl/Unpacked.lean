import Nox.Lib.Records
import Nox.Ofl.Actions

/-!
# Replies of a switch, unpacked

`ofl_structs_*_unpack` and the decoders of `ofl-messages-unpack.c` for the messages whose
structures a component reads.  A structure that `malloc` gives holds nothing until it is
written: an entry of an array of pointers that the code may leave unwritten is an `Option`,
and so is the table of a match that was not set up.  The numbers of a structure stand in one
list, in the order in which they are written.

The memory may be longer than the message, and what is read behind its end ends the decoder.
-/

namespace Nox.Ofl

open Oxm Records

section Checks

/-! ## Checks -/

def ofpetHelloFailed : Nat := 0
def ofpetBadRequest : Nat := 1
def ofpetBadInstruction : Nat := 3
def ofpetGroupModFailed : Nat := 6
def ofpetTableFeaturesFailed : Nat := 13
def ofphfcIncompatible : Nat := 0
def ofpbrcBadMultipart : Nat := 2
def ofpbrcBadTableId : Nat := 9
def ofpbicUnsupInst : Nat := 1
def ofpbicBadTableId : Nat := 2
def ofpbmcBadType : Nat := 0
def ofpgmfcInvalidGroup : Nat := 1
def ofptffcBadLen : Nat := 3

/-- `OFL_ERROR`, as `ofl_error` of a type and a code. -/
def OFL_ERROR : UnpackError := .oflError 0xffff 0xffff

/-- `if (c) return e` -/
def reject (c : Prop) [Decidable c] (e : UnpackError) : Unpack Unit :=
  if c then .error e else .ok ()

/-- The numbers at the offsets, each with its width. -/
def numbersAt (src : Bytes) (fields : List (Nat × Nat)) : Unpack (List Nat) :=
  fields.mapM fun f => readNtoh src f.1 f.2

/-- `strcpy` of the characters from `off` on. -/
def strcpy (src : Bytes) (off : Nat) : Unpack Bytes :=
  let s := (src.drop off).takeWhile (· ≠ 0)
  if off + s.length < src.length then .ok s else .error .overrun

/-- Records with a length of two bytes at `off`. -/
def lengthAtLayout (off step least : Nat) (h : 0 < least := by decide) :
    Layout UInt8 UnpackError :=
  ⟨step, least, fun d => readNtoh d off 2, h⟩

/-- Counts the records of the next `announced` bytes and unpacks as many, out of `len`. -/
def unpackRecords {α : Type} (L : Layout UInt8 UnpackError) (bad : UnpackError)
    (unpack : Nat → Bytes → Nat → Unpack (α × Nat)) (src : Bytes) (announced len : Nat) :
    Unpack (List α × Nat) := do
  unpackAll L.size unpack (← L.count bad src announced) src len

/-- The records of `k` bytes each; their number is the quotient of the length. -/
def unpackFixed {α : Type} (k : Nat) (unpack : Bytes → Nat → Unpack (α × Nat)) (src : Bytes)
    (len : Nat) : Unpack (List α × Nat) :=
  unpackAll (fun _ => .ok k) (fun _ => unpack) (len / k) src len

/-- A call whose error is not looked at: the entry stays unwritten. -/
def ignoring {α : Type} (len : Nat) : Unpack (α × Nat) → Unpack (Option α × Nat)
  | .ok (a, len) => .ok (some a, len)
  | .error (.oflError _ _) => .ok (none, len)
  | .error .overrun => .error .overrun

end Checks

namespace Unpacked

section Structures

/-! ## Structures -/

/-- `struct ofl_match`: its table is set up by `oxm_pull_match`. -/
structure Match where
  length : Nat
  matchFields : Option OflMatch

/-- An `ofl_instruction_header`; `actions` is one of the structures with actions. -/
inductive Instruction
  | plain (type : Nat) (numbers : List Nat)
  | actions (type : Nat) (actions : List OflAction)

structure FlowStats where
  numbers : List Nat
  oflMatch : Match
  instructions : List Instruction

structure GroupStats where
  numbers : List Nat
  counters : List (List Nat)

structure Bucket where
  numbers : List Nat
  actions : List OflAction

structure GroupDescStats where
  numbers : List Nat
  buckets : List Bucket

structure MeterStats where
  numbers : List Nat
  bandStats : List (List Nat)

structure MeterBand where
  type : Nat
  numbers : List Nat

structure MeterConfig where
  numbers : List Nat
  bands : List (Option MeterBand)

structure QueueProp where
  type : Nat
  numbers : List Nat

structure PacketQueue where
  queueId : Nat
  properties : List (Option QueueProp)

structure Port where
  numbers : List Nat
  hwAddr : Bytes
  name : Bytes

structure Desc where
  mfrDesc : Bytes
  hwDesc : Bytes
  swDesc : Bytes
  serialNum : Bytes
  dpDesc : Bytes

/-- What the decoders of multipart replies allocate, one constructor for each structure. -/
inductive Reply
  | desc (desc : Desc)
  | flow (stats : List FlowStats)
  | aggregate (numbers : List Nat)
  | table (stats : List (List Nat))
  | tableFeatures (tableFeatures : List (Option Unit))
  | port (stats : List (List Nat))
  | queue (stats : List (List Nat))
  | group (stats : List GroupStats)
  | groupDesc (stats : List GroupDescStats)
  | groupFeatures (numbers : List Nat)
  | meter (stats : List MeterStats)
  | meterConf (stats : List MeterConfig)
  | portDesc (stats : List Port)

/-- The structure of a message.  `multipart` begins with the type and the flags of a
multipart reply; `other` stands for a structure that is not read here. -/
inductive Body
  | error (numbers : List Nat) (data : Bytes)
  | featuresReply (numbers : List Nat)
  | getConfigReply (config : List Nat)
  | queueGetConfigReply (port : Nat) (queues : List PacketQueue)
  | multipart (type flags : Nat) (reply : Reply)
  | other

/-- A message with the type in its header. -/
structure Msg where
  type : Nat
  body : Body

/-- The decoders of the messages that become `Body.other`, by their type, and of a table of
a table features reply, with whether the entry was written. -/
structure OtherDecoders where
  message : Nat → Bytes → Nat → Unpack Unit
  tableFeatures : Bytes → Nat → Unpack (Option Unit × Nat)

end Structures

section Flows

/-! ## Flow and group entries -/

/-- The code of the error `oxm_pull_match` gives. -/
def ofMkerr (e : Nat) : UnpackError := .oflError (e / 2 ^ 16) (e % 2 ^ 16)

/-- `ofl_structs_oxm_match_unpack`; `buf` is where the fields begin. -/
def oflStructsOxmMatchUnpack (src buf : Bytes) (len : Nat) : Unpack (Match × Nat) := do
  let length ← readNtoh src 2 2
  let len := sizeSub len (roundUp length 8)
  if 8 < length then
    let fields ← memcpy buf 0 (length - 4)
    match oxmPullMatch fields (length - 4) with
    | .error e => .error (ofMkerr e)
    | .ok (m, _) => return (⟨length - 4, some m⟩, len)
  else return (⟨0, none⟩, len)

/-- `ofl_structs_match_unpack` without callbacks for experimenters. -/
def oflStructsMatchUnpack (src buf : Bytes) (len : Nat) : Unpack (Match × Nat) := do
  if (← readNtoh src 0 2) = ofpmtOxm then oflStructsOxmMatchUnpack src buf len
  else .error (.oflError ofpetBadMatch ofpbmcBadType)

/-- `ofp_action_header`, as `ofl_utils_count_ofp_actions` counts them. -/
def actionLayout : Layout UInt8 UnpackError := lengthAtLayout 2 4 4

def instructionLayout : Layout UInt8 UnpackError := lengthAtLayout 2 4 4

def flowStatsLayout : Layout UInt8 UnpackError := lengthAtLayout 0 56 56

def bucketLayout : Layout UInt8 UnpackError := lengthAtLayout 0 16 16

def groupStatsLayout : Layout UInt8 UnpackError := lengthAtLayout 0 40 40

def groupDescLayout : Layout UInt8 UnpackError := lengthAtLayout 0 8 8

def badLen : UnpackError := .oflError ofpetBadRequest ofpbrcBadLen

/-- The case of an instruction of a fixed size, with what it leaves of its length. -/
def plainInstruction (type size : Nat) (short : UnpackError) (src : Bytes)
    (fields : List (Nat × Nat)) (ilen : Nat) : Unpack (Instruction × Nat) := do
  reject (ilen < size) short
  return (.plain type (← numbersAt src fields), ilen - size)

/-- The cases of `ofl_structs_instructions_unpack`; `fresh` is what `malloc` gives for the
actions of a list that begins there. -/
def instructionBody (fresh : Bytes → Nat → Bytes) (type : Nat) (src : Bytes) (ilen : Nat) :
    Unpack (Instruction × Nat) := do
  match type with
  | 1 => do
    reject (ilen < 8) (.oflError ofpetBadAction ofpbrcBadLen)
    reject ((← readNtoh src 4 1) = 0xff) (.oflError ofpetBadInstruction ofpbicBadTableId)
    return (.plain type (← numbersAt src [(4, 1)]), ilen - 8)
  | 2 => plainInstruction type 24 (.oflError ofpetBadAction ofpbrcBadLen) src [(8, 8), (16, 8)] ilen
  | 3 | 4 => do
    reject (ilen < 8) badLen
    let (actions, ilen) ← unpackActions (fresh src) (src.drop 8) (ilen - 8)
    return (.actions type actions, ilen)
  | 5 => plainInstruction type 8 badLen src [] ilen
  | 6 => plainInstruction type 8 (.oflError ofpetBadAction ofpbrcBadLen) src [(4, 4)] ilen
  | 0xffff => .error (.oflError ofpetBadInstruction ofpbicUnsupInst)
  -- the header of no instruction is written
  | _ => .error .overrun

/-- `ofl_structs_instructions_unpack` without callbacks for experimenters. -/
def oflStructsInstructionsUnpack (fresh : Bytes → Nat → Bytes) (src : Bytes) (len : Nat) :
    Unpack (Instruction × Nat) := do
  reject (len < 8) (.oflError ofpetBadAction ofpbacBadLen)
  let srcLen ← readNtoh src 2 2
  reject (len < srcLen) (.oflError ofpetBadAction ofpbacBadLen)
  let (inst, ilen) ← instructionBody fresh (← readNtoh src 0 2) src srcLen
  reject (ilen ≠ 0) badLen
  return (inst, sizeSub len srcLen)

/-- `ofl_structs_flow_stats_unpack` -/
def oflStructsFlowStatsUnpack (fresh : Bytes → Nat → Bytes) (src : Bytes) (len : Nat) :
    Unpack (FlowStats × Nat) := do
  reject (len < 48 + roundUp (← readNtoh src 50 2) 8) badLen
  let srcLen ← readNtoh src 0 2
  reject (len < srcLen) badLen
  reject ((← readNtoh src 2 1) = 0xff) (.oflError ofpetBadRequest ofpbrcBadTableId)
  let numbers ← numbersAt src
    [(2, 1), (4, 4), (8, 4), (12, 2), (14, 2), (16, 2), (24, 8), (32, 8), (40, 8)]
  let (m, slen) ← oflStructsMatchUnpack (src.drop 48) (src.drop 52) (sizeSub srcLen 48)
  let insts := src.drop (roundUp (52 + m.length) 8)
  let (instructions, slen) ← unpackRecords instructionLayout badLen
    (fun _ => oflStructsInstructionsUnpack fresh) insts slen slen
  reject (slen ≠ 0) badLen
  return (⟨numbers, m, instructions⟩, sizeSub len srcLen)

def oflStructsBucketCounterUnpack (src : Bytes) (len : Nat) : Unpack (List Nat × Nat) := do
  reject (len < 16) badLen
  return (← numbersAt src [(0, 8), (8, 8)], len - 16)

/-- `ofl_structs_group_stats_unpack` -/
def oflStructsGroupStatsUnpack (src : Bytes) (len : Nat) : Unpack (GroupStats × Nat) := do
  reject (len < 40) badLen
  let srcLen ← readNtoh src 0 2
  reject (len < srcLen) badLen
  reject (ofpgMax < (← readNtoh src 4 4)) (.oflError ofpetBadAction ofpbrcBadLen)
  let numbers ← numbersAt src [(4, 4), (8, 4), (16, 8), (24, 8), (32, 4), (36, 4)]
  let (counters, slen) ← unpackFixed 16 oflStructsBucketCounterUnpack (src.drop 40)
    (sizeSub srcLen 40)
  reject (slen ≠ 0) badLen
  return (⟨numbers, counters⟩, sizeSub len srcLen)

def ofpgtSelect : Nat := 1

/-- `ofl_structs_bucket_unpack` -/
def oflStructsBucketUnpack (fresh : Bytes → Nat → Bytes) (gtype : Nat) (src : Bytes)
    (len : Nat) : Unpack (Bucket × Nat) := do
  reject (len < 16) (.oflError ofpetBadAction ofpbacBadLen)
  let srcLen ← readNtoh src 0 2
  reject (len < srcLen) (.oflError ofpetBadAction ofpbacBadLen)
  let weight ← readNtoh src 2 2
  reject (gtype = ofpgtSelect ∧ weight = 0) (.oflError ofpetGroupModFailed ofpgmfcInvalidGroup)
  reject (gtype ≠ ofpgtSelect ∧ 0 < weight) (.oflError ofpetGroupModFailed ofpgmfcInvalidGroup)
  let numbers ← numbersAt src [(2, 2), (4, 4), (8, 4)]
  let (actions, blen) ← unpackActions (fresh src) (src.drop 16) (sizeSub srcLen 16)
  reject (8 ≤ blen) badLen
  return (⟨numbers, actions⟩, sizeSub len srcLen)

/-- `ofl_structs_group_desc_stats_unpack` -/
def oflStructsGroupDescStatsUnpack (fresh : Bytes → Nat → Bytes) (src : Bytes) (len : Nat) :
    Unpack (GroupDescStats × Nat) := do
  reject (len < 8) badLen
  let srcLen ← readNtoh src 0 2
  reject (len < srcLen) badLen
  reject (ofpgMax < (← readNtoh src 4 4)) badLen
  let numbers ← numbersAt src [(2, 1), (4, 4)]
  let gtype ← readNtoh src 2 1
  let (buckets, dlen) ← unpackRecords bucketLayout badLen
    (fun _ => oflStructsBucketUnpack fresh gtype) (src.drop 8) (sizeSub srcLen 8)
    (sizeSub srcLen 8)
  reject (dlen ≠ 0) badLen
  return (⟨numbers, buckets⟩, sizeSub len srcLen)

end Flows

section Meters

/-! ## Meters -/

def meterStatsLayout : Layout UInt8 UnpackError := lengthAtLayout 4 40 40

def meterConfigLayout : Layout UInt8 UnpackError := lengthAtLayout 0 8 8

/-- The loop of `ofl_utils_count_ofp_meter_bands` goes by the size of a bucket. -/
def meterBandLayout : Layout UInt8 UnpackError := lengthAtLayout 2 16 12

def oflStructsMeterBandStatsUnpack (src : Bytes) (len : Nat) : Unpack (List Nat × Nat) := do
  reject (len < 16) badLen
  return (← numbersAt src [(0, 8), (8, 8)], len - 16)

/-- `ofl_structs_meter_stats_unpack` -/
def oflStructsMeterStatsUnpack (src : Bytes) (len : Nat) : Unpack (MeterStats × Nat) := do
  reject (len < 40) badLen
  let srcLen ← readNtoh src 4 2
  reject (len < srcLen) badLen
  let numbers ← numbersAt src [(0, 4), (4, 2), (12, 4), (16, 8), (24, 8), (32, 4), (36, 4)]
  let (bandStats, slen) ← unpackFixed 16 oflStructsMeterBandStatsUnpack (src.drop 40)
    (sizeSub srcLen 40)
  reject (slen ≠ 0) badLen
  return (⟨numbers, bandStats⟩, sizeSub len srcLen)

/-- The cases of `ofl_structs_meter_band_unpack`; for another type `*dst` is not written. -/
def meterBandBody (type : Nat) (src : Bytes) : Unpack (Option MeterBand) := do
  match type with
  | 1 => return some ⟨type, ← numbersAt src [(4, 4), (8, 4)]⟩
  | 2 => return some ⟨type, ← numbersAt src [(4, 4), (8, 4), (12, 1)]⟩
  | 0xffff => return some ⟨type, ← numbersAt src [(4, 4), (8, 4), (12, 4)]⟩
  | _ => return none

/-- `ofl_structs_meter_band_unpack` -/
def oflStructsMeterBandUnpack (src : Bytes) (len : Nat) : Unpack (Option MeterBand × Nat) := do
  reject (len < 12) (.oflError ofpetBadAction ofpbacBadLen)
  let band ← meterBandBody (← readNtoh src 0 2) src
  return (band, sizeSub len (← readNtoh src 2 2))

/-- `ofl_structs_meter_config_unpack` -/
def oflStructsMeterConfigUnpack (src : Bytes) (len : Nat) : Unpack (MeterConfig × Nat) := do
  reject (len < 8) badLen
  let srcLen ← readNtoh src 0 2
  reject (len < srcLen) badLen
  let numbers ← numbersAt src [(4, 4), (0, 2), (2, 2)]
  let (bands, slen) ← unpackRecords meterBandLayout badLen (fun _ => oflStructsMeterBandUnpack)
    (src.drop 8) (sizeSub srcLen 8) (sizeSub srcLen 8)
  reject (slen ≠ 0) badLen
  return (⟨numbers, bands⟩, sizeSub len srcLen)

end Meters

section Queues

/-! ## Queues -/

def packetQueueLayout : Layout UInt8 UnpackError := lengthAtLayout 8 16 16

def queuePropLayout : Layout UInt8 UnpackError := lengthAtLayout 2 8 8

/-- A property of 16 bytes. -/
def queueProp (type : Nat) (src : Bytes) (fields : List (Nat × Nat)) (len : Nat) :
    Unpack (QueueProp × Nat) := do
  reject (len < 16) (.oflError ofpetBadAction ofpbrcBadLen)
  return (⟨type, ← numbersAt src fields⟩, len - 16)

/-- `ofl_structs_queue_prop_unpack` -/
def oflStructsQueuePropUnpack (src : Bytes) (len : Nat) : Unpack (QueueProp × Nat) := do
  reject (len < 8) (.oflError ofpetBadAction ofpbacBadLen)
  reject (len < (← readNtoh src 2 2)) (.oflError ofpetBadAction ofpbacBadLen)
  match ← readNtoh src 0 2 with
  | 1 => queueProp 1 src [(8, 2)] len
  | 2 => queueProp 2 src [(8, 2)] len
  | 0xffff => queueProp 0xffff src [] len
  | _ => .error (.oflError ofpetBadAction ofpbrcBadLen)

/-- `ofl_structs_packet_queue_unpack`: the properties are those of all that remains, and
the error of one is not looked at. -/
def oflStructsPacketQueueUnpack (src : Bytes) (len : Nat) : Unpack (PacketQueue × Nat) := do
  reject (len < (← readNtoh src 8 2)) (.oflError ofpetBadAction ofpbrcBadLen)
  let len := sizeSub len 16
  let queueId ← readNtoh src 0 4
  let (properties, len) ← unpackRecords queuePropLayout badLen
    (fun _ prop len => ignoring len (oflStructsQueuePropUnpack prop len)) (src.drop 16) len len
  return (⟨queueId, properties⟩, len)

end Queues

section Ports

/-! ## Ports and tables -/

/-- The check of a port number. -/
def badPortNo (portNo : Nat) : Prop := portNo = 0 ∨ ofppMax < portNo ∧ portNo ≠ ofppLocal

instance (portNo : Nat) : Decidable (badPortNo portNo) :=
  inferInstanceAs (Decidable (_ ∨ _))

/-- `ofl_structs_port_unpack` -/
def oflStructsPortUnpack (src : Bytes) (len : Nat) : Unpack (Port × Nat) := do
  reject (len < 64) (.oflError ofpetBadAction ofpbrcBadLen)
  reject (badPortNo (← readNtoh src 0 4)) (.oflError ofpetBadAction ofpbrcBadLen)
  let numbers ← numbersAt src
    [(0, 4), (32, 4), (36, 4), (40, 4), (44, 4), (48, 4), (52, 4), (56, 4), (60, 4)]
  let hwAddr ← memcpy src 8 6
  let name ← strcpy src 16
  return (⟨numbers, hwAddr, name⟩, len - 64)

/-- `ofl_structs_table_stats_unpack` -/
def oflStructsTableStatsUnpack (src : Bytes) (len : Nat) : Unpack (List Nat × Nat) := do
  reject (len < 24) (.oflError ofpetBadAction ofpbrcBadLen)
  reject ((← readNtoh src 0 1) = 0xff) (.oflError ofpetBadAction ofpbrcBadLen)
  return (← numbersAt src [(0, 1), (4, 4), (8, 8), (16, 8)], len - 24)

/-- `ofl_structs_port_stats_unpack` -/
def oflStructsPortStatsUnpack (src : Bytes) (len : Nat) : Unpack (List Nat × Nat) := do
  reject (len < 112) (.oflError ofpetBadAction ofpbrcBadLen)
  reject (badPortNo (← readNtoh src 0 4)) (.oflError ofpetBadAction ofpbrcBadLen)
  let numbers ← numbersAt src [(0, 4), (8, 8), (16, 8), (24, 8), (32, 8), (40, 8), (48, 8),
    (56, 8), (64, 8), (72, 8), (80, 8), (88, 8), (96, 8), (104, 4), (108, 4)]
  return (numbers, len - 112)

/-- `ofl_structs_queue_stats_unpack` -/
def oflStructsQueueStatsUnpack (src : Bytes) (len : Nat) : Unpack (List Nat × Nat) := do
  reject (len < 40) badLen
  let portNo ← readNtoh src 0 4
  reject (portNo = 0 ∨ ofppMax < portNo) (.oflError ofpetBadAction ofpbrcBadLen)
  return (← numbersAt src [(0, 4), (4, 4), (8, 8), (16, 8), (24, 8), (32, 4), (36, 4)], len - 40)

end Ports

section Replies

/-! ## Multipart replies -/

def tableFeaturesLayout : Layout UInt8 UnpackError := lengthAtLayout 0 64 64

/-- `ofl_msg_unpack_reply_desc` -/
def oflMsgUnpackReplyDesc (body : Bytes) (len : Nat) : Unpack Reply := do
  reject (len < 1056) badLen
  return .desc ⟨← strcpy body 0, ← strcpy body 256, ← strcpy body 512, ← strcpy body 768,
    ← strcpy body 800⟩

/-- `ofl_msg_unpack_multipart_reply_aggregate` -/
def oflMsgUnpackReplyAggregate (body : Bytes) (len : Nat) : Unpack Reply := do
  reject (len < 24) badLen
  return .aggregate (← numbersAt body [(0, 8), (8, 8), (16, 4)])

/-- `ofl_msg_unpack_multipart_reply_group_features` -/
def oflMsgUnpackReplyGroupFeatures (body : Bytes) (len : Nat) : Unpack Reply := do
  reject (len < 40) badLen
  return .groupFeatures (← numbersAt body
    [(0, 4), (4, 4), (8, 4), (24, 4), (12, 4), (28, 4), (16, 4), (32, 4), (20, 4), (36, 4)])

/-- `ofl_msg_unpack_multipart_reply_table_features`: the error of a table is not looked at. -/
def oflMsgUnpackReplyTableFeatures (D : OtherDecoders) (body : Bytes) (len : Nat) :
    Unpack Reply := do
  let (tables, _) ← unpackRecords tableFeaturesLayout
    (.oflError ofpetTableFeaturesFailed ofptffcBadLen) (fun _ => D.tableFeatures) body len len
  return .tableFeatures tables

/-- The cases of `ofl_msg_unpack_multipart_reply`, without callbacks for experimenters. -/
def unpackReply (D : OtherDecoders) (fresh : Bytes → Nat → Bytes) (type : Nat) (body : Bytes)
    (len : Nat) : Unpack Reply := do
  match type with
  | 0 => oflMsgUnpackReplyDesc body len
  | 1 =>
    return .flow (← unpackRecords flowStatsLayout badLen
      (fun _ => oflStructsFlowStatsUnpack fresh) body len len).1
  | 2 => oflMsgUnpackReplyAggregate body len
  | 3 => return .table (← unpackFixed 24 oflStructsTableStatsUnpack body len).1
  | 12 => oflMsgUnpackReplyTableFeatures D body len
  | 4 => return .port (← unpackFixed 112 oflStructsPortStatsUnpack body len).1
  | 5 => return .queue (← unpackFixed 40 oflStructsQueueStatsUnpack body len).1
  | 6 =>
    return .group (← unpackRecords groupStatsLayout badLen
      (fun _ => oflStructsGroupStatsUnpack) body len len).1
  | 7 =>
    return .groupDesc (← unpackRecords groupDescLayout badLen
      (fun _ => oflStructsGroupDescStatsUnpack fresh) body len len).1
  | 8 => oflMsgUnpackReplyGroupFeatures body len
  | 9 =>
    return .meter (← unpackRecords meterStatsLayout badLen
      (fun _ => oflStructsMeterStatsUnpack) body len len).1
  | 10 =>
    return .meterConf (← unpackRecords meterConfigLayout badLen
      (fun _ => oflStructsMeterConfigUnpack) body len len).1
  | 13 => return .portDesc (← unpackFixed 64 oflStructsPortUnpack body len).1
  | _ => .error (.oflError ofpetBadRequest ofpbrcBadMultipart)

/-- `ofl_msg_unpack_multipart_reply` -/
def oflMsgUnpackMultipartReply (D : OtherDecoders) (fresh : Bytes → Nat → Bytes) (src : Bytes)
    (len : Nat) : Unpack Body := do
  reject (len < 16) badLen
  let type ← readNtoh src 8 2
  let reply ← unpackReply D fresh type (src.drop 16) (len - 16)
  return .multipart type (← readNtoh src 10 2) reply

end Replies

section Messages

/-! ## Messages -/

def ofptMultipartReply : Nat := 19
def ofptQueueGetConfigReply : Nat := 23
def ofpVersion : Nat := 4

/-- `ofl_msg_unpack_error` -/
def oflMsgUnpackError (src : Bytes) (len : Nat) : Unpack Body := do
  reject (len < 12) OFL_ERROR
  return .error (← numbersAt src [(8, 2), (10, 2)]) (← memcpy src 12 (len - 12))

/-- `ofl_msg_unpack_features_reply`: a message that is too short is only logged. -/
def oflMsgUnpackFeaturesReply (src : Bytes) : Unpack Body := do
  return .featuresReply (← numbersAt src [(8, 8), (16, 4), (20, 1), (21, 1), (24, 4)])

/-- `ofl_msg_unpack_get_config_reply` -/
def oflMsgUnpackGetConfigReply (src : Bytes) (len : Nat) : Unpack Body := do
  reject (len < 12) badLen
  return .getConfigReply (← numbersAt src [(10, 2), (8, 2)])

/-- `ofl_msg_unpack_queue_get_config_reply` -/
def oflMsgUnpackQueueGetConfigReply (src : Bytes) (len : Nat) : Unpack Body := do
  reject (len < 16) badLen
  let port ← readNtoh src 8 4
  let (queues, _) ← unpackRecords packetQueueLayout badLen
    (fun _ => oflStructsPacketQueueUnpack) (src.drop 16) (len - 16) (len - 16)
  return .queueGetConfigReply port queues

/-- The cases of `ofl_msg_unpack`. -/
def unpackBody (D : OtherDecoders) (fresh : Bytes → Nat → Bytes) (type : Nat) (buf : Bytes)
    (len : Nat) : Unpack Body := do
  match type with
  | 1 => oflMsgUnpackError buf len
  | 6 => oflMsgUnpackFeaturesReply buf
  | 8 => oflMsgUnpackGetConfigReply buf len
  | 19 => oflMsgUnpackMultipartReply D fresh buf len
  | 23 => oflMsgUnpackQueueGetConfigReply buf len
  | _ => do
    D.message type buf len
    return .other

/-- `ofl_msg_unpack`.  Bytes that no decoder used are only logged. -/
def oflMsgUnpack (D : OtherDecoders) (fresh : Bytes → Nat → Bytes) (buf : Bytes)
    (bufLen : Nat) : Unpack Msg := do
  reject (bufLen < 8) badLen
  reject ((← readNtoh buf 0 1) ≠ ofpVersion) (.oflError ofpetHelloFailed ofphfcIncompatible)
  reject (bufLen ≠ (← readNtoh buf 2 2)) badLen
  let type ← readNtoh buf 1 1
  return ⟨type, ← unpackBody D fresh type buf bufLen⟩

end Messages

end Unpacked

end Nox.Ofl
